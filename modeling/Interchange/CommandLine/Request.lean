import Interchange.CommandLine.Option

/-!
# Requests

What a command line asks for: a conversion, or a list of the formats or of the transforms.
Everything that cannot be made out is a mistake in usage, but help comes first when it is asked
for before the mistake.
-/
namespace Interchange.CommandLine

/-- The options of all commands. -/
inductive Flag where
  | help
  | verbose
  | output
  | source
  | target
  | transform
  | media
  | pretty
  | preserveSource
  | useSource
  | noEmbed
deriving DecidableEq

structure ConvertRequest where
  input : String
  output : Option String
  source : Option String
  target : Option String
  transforms : List String
  /-- The directory for media files. -/
  media : Option String
  pretty : Bool
  preserveSource : Bool
  useSource : Bool
  embeds : Bool
deriving DecidableEq

inductive Request where
  | convert (request : ConvertRequest)
  | formats
  | transforms
deriving DecidableEq

/-- Why nothing is done. -/
inductive Refusal where
  | help
  | usage
  | noCommand
deriving DecidableEq

def Refusal.exitCode : Refusal → Nat
  | .help => 0
  | .noCommand => 1
  | .usage => 2

abbrev Arguments := List (Argument Flag)

def helpRule : OptionRule Flag := ⟨.help, ["-h", "--help"], false⟩

def verboseRule : OptionRule Flag := ⟨.verbose, ["-v", "--verbose"], false⟩

def programRules : List (OptionRule Flag) := [helpRule, verboseRule]

def listRules : List (OptionRule Flag) := [helpRule]

def convertRules : List (OptionRule Flag) := [
  helpRule, ⟨.output, ["-o", "--output"], true⟩, ⟨.source, ["--from"], true⟩,
  ⟨.target, ["--to"], true⟩, ⟨.transform, ["-t", "--transform"], true⟩,
  ⟨.media, ["--extract-media"], true⟩, ⟨.pretty, ["--pretty"], false⟩,
  ⟨.preserveSource, ["--preserve-source"], false⟩, ⟨.useSource, ["--use-source-info"], false⟩,
  ⟨.noEmbed, ["--no-embed"], false⟩, verboseRule]

/-- What the arguments of a command come to. -/
structure Gathered where
  given : List (Given Flag)
  positionals : List String
  /-- Whether anything is left over. -/
  hasExtras : Bool

def isHelp (given : Given Flag) : Bool := given.flag = .help

/-- Gathers the arguments of a command with so many positional ones. Two dashes may stand next to a
positional argument that is taken, and nowhere else. -/
def gather (rules : List (OptionRule Flag)) (wanted : Nat) : Nat → Gathered → Arguments →
    Except Refusal Gathered
  | 0, _, _ => .error .usage
  | _ + 1, gathered, [] => .ok gathered
  | fuel + 1, gathered, argument :: rest =>
    match argument with
    | .option rule name attached =>
      match takeGiven? rules rule name attached rest with
      | none => .error .usage
      | some (found, rest) =>
        if found.any isHelp then .error .help
        else gather rules wanted fuel { gathered with given := gathered.given ++ found } rest
    | .unknownOption _ => gather rules wanted fuel { gathered with hasExtras := true } rest
    | .positional text =>
      if gathered.positionals.length < wanted then
        let rest := match rest with
          | .separator :: rest => rest
          | rest => rest
        gather rules wanted fuel { gathered with positionals := gathered.positionals ++ [text] } rest
      else gather rules wanted fuel { gathered with hasExtras := true } rest
    | .separator =>
      match rest with
      | .positional text :: rest =>
        if gathered.positionals.length < wanted then
          gather rules wanted fuel { gathered with positionals := gathered.positionals ++ [text] } rest
        else gather rules wanted fuel { gathered with hasExtras := true } rest
      | rest => gather rules wanted fuel { gathered with hasExtras := true } rest

def gatherAll (rules : List (OptionRule Flag)) (wanted : Nat) (texts : List String) :
    Except Refusal Gathered :=
  match Argument.classifyAll? rules texts with
  | none => .error .usage
  | some arguments => gather rules wanted (arguments.length + 1) ⟨[], [], false⟩ arguments

namespace Gathered

def has (gathered : Gathered) (flag : Flag) : Bool := gathered.given.any (·.flag = flag)

def values (gathered : Gathered) (flag : Flag) : List String :=
  (gathered.given.filter (·.flag = flag)).filterMap (·.value)

/-- The last value of an option counts. -/
def value? (gathered : Gathered) (flag : Flag) : Option String := (gathered.values flag).getLast?

def convertRequest (gathered : Gathered) (input : String) : ConvertRequest :=
  ⟨input, gathered.value? .output, gathered.value? .source, gathered.value? .target,
    gathered.values .transform, gathered.value? .media, gathered.has .pretty,
    gathered.has .preserveSource, gathered.has .useSource, !gathered.has .noEmbed⟩

end Gathered

/-- The request of a command with its arguments. -/
def command (name : String) (texts : List String) : Except Refusal Request :=
  let list (request : Request) : Except Refusal Request := do
    let gathered ← gatherAll listRules 0 texts
    if gathered.hasExtras then .error .usage else .ok request
  match name with
  | "convert" => do
    let gathered ← gatherAll convertRules 1 texts
    match gathered.positionals with
    | [input] => if gathered.hasExtras then .error .usage else .ok (.convert (gathered.convertRequest input))
    | _ => .error .usage
  | "formats" => list .formats
  | "transforms" => list .transforms
  | _ => .error .usage

/-- The request after the options of the program itself; `hasExtras` tells whether an argument
before was left over. The texts stand beside what they are. -/
def program (hasExtras : Bool) : Nat → List String → Arguments → Except Refusal Request
  | 0, _, _ => .error .usage
  | _ + 1, _, [] => .error (if hasExtras then .usage else .noCommand)
  | fuel + 1, texts, argument :: rest =>
    match argument with
    | .positional name => do
      let request ← command name (texts.drop 1)
      if hasExtras then .error .usage else .ok request
    | .separator => .error .usage
    | .unknownOption _ => program true fuel (texts.drop 1) rest
    | .option rule name attached =>
      match takeGiven? programRules rule name attached rest with
      | none => .error .usage
      | some (found, after) =>
        if found.any isHelp then .error .help
        else program hasExtras fuel (texts.drop (1 + (rest.length - after.length))) after

def parse (texts : List String) : Except Refusal Request :=
  match Argument.classifyAll? programRules texts with
  | none => .error .usage
  | some arguments => program false (arguments.length + 1) texts arguments

end Interchange.CommandLine
