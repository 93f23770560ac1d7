import Interchange.Number.Digits

/-!
# Options on a command line

An argument that begins with a dash may be an option: written out, followed by an equals sign and
a value, as a short option with its value attached or with other short options, or as the start of
one long option only. After two dashes alone every argument is a positional one.
-/
namespace Interchange.CommandLine

/-- An option by the names it goes by; `φ` tells options apart. -/
structure OptionRule (φ : Type) where
  flag : φ
  names : List String
  takesValue : Bool

/-- What an argument is. -/
inductive Argument (φ : Type) where
  | positional (text : String)
  | separator
  | unknownOption (text : String)
  /-- An option under one of its names, with the text attached to it. -/
  | option (rule : OptionRule φ) (name : String) (attached : Option String)

namespace Argument

variable {φ : Type}

/-- Negative numbers are positional. -/
def isNegativeNumber (cs : List Char) : Bool :=
  let isDigits (ds : List Char) : Bool := !ds.isEmpty && ds.all fun c => (Text.decimalValue? c).isSome
  match cs with
  | '-' :: body =>
    isDigits body || match body.dropWhile (· ≠ '.') with
      | '.' :: part =>
        isDigits part && ((body.takeWhile (· ≠ '.')).isEmpty || isDigits (body.takeWhile (· ≠ '.')))
      | _ => false
  | _ => false

def named? (rules : List (OptionRule φ)) (name : String) : Option (OptionRule φ) :=
  rules.find? (·.names.contains name)

/-- A text at its first equals sign. -/
def splitValue (cs : List Char) : List Char × Option String :=
  match cs.dropWhile (· ≠ '=') with
  | [] => (cs, none)
  | _ :: value => (cs.takeWhile (· ≠ '='), some (String.ofList value))

/-- The options that an argument which is the name of none may stand for. -/
def candidates (rules : List (OptionRule φ)) (cs : List Char) : List (Argument φ) :=
  let all := rules.flatMap fun rule => rule.names.map fun name => (rule, name)
  let startsWith (start : List Char) (name : String) : Bool := start.isPrefixOf name.toList
  if "--".toList.isPrefixOf cs then
    let (start, value) := splitValue cs
    all.filterMap fun (rule, name) =>
      if startsWith start name then some (.option rule name value) else none
  else
    all.filterMap fun (rule, name) =>
      if name.toList = cs.take 2 then some (.option rule name (some (String.ofList (cs.drop 2))))
      else if startsWith cs name then some (.option rule name none)
      else none

/-- What one argument is; none when it may stand for several options. -/
def classify? (rules : List (OptionRule φ)) (text : String) : Option (Argument φ) :=
  let cs := text.toList
  if !"-".toList.isPrefixOf cs ∨ cs.length = 1 then some (.positional text)
  else match named? rules text with
    | some rule => some (.option rule text none)
    | none =>
      let (name, value) := splitValue cs
      match value, named? rules (String.ofList name) with
      | some value, some rule => some (.option rule (String.ofList name) (some value))
      | _, _ =>
        match candidates rules cs with
        | [found] => some found
        | _ :: _ :: _ => none
        | [] =>
          if isNegativeNumber cs ∨ cs.contains ' ' then some (.positional text)
          else some (.unknownOption text)

/-- What the arguments are. -/
def classifyAll? (rules : List (OptionRule φ)) : List String → Option (List (Argument φ))
  | [] => some []
  | text :: texts =>
    if text = "--" then some (.separator :: texts.map .positional)
    else do
      let argument ← classify? rules text
      let arguments ← classifyAll? rules texts
      some (argument :: arguments)

end Argument

/-- An option that was given, with its value if it takes one. -/
structure Given (φ : Type) where
  flag : φ
  value : Option String

variable {φ : Type}

/-- An option without text attached to it takes its value from the next argument. -/
def takeOption? (rule : OptionRule φ) (rest : List (Argument φ)) :
    Option (Given φ × List (Argument φ)) :=
  if rule.takesValue then
    match rest with
    | .positional value :: rest => some (⟨rule.flag, some value⟩, rest)
    | _ => none
  else some (⟨rule.flag, none⟩, rest)

/-- Short options written together after a first one. -/
def takeAttached? (rules : List (OptionRule φ)) (rule : OptionRule φ) (rest : List (Argument φ)) :
    List Char → Option (List (Given φ) × List (Argument φ))
  | [] =>
    if rule.takesValue then some ([⟨rule.flag, some ""⟩], rest) else none
  | c :: cs =>
    if rule.takesValue then some ([⟨rule.flag, some (String.ofList (c :: cs))⟩], rest)
    else do
      let next ← Argument.named? rules (String.ofList ['-', c])
      if cs.isEmpty then do
        let (given, rest) ← takeOption? next rest
        some ([⟨rule.flag, none⟩, given], rest)
      else do
        let (others, rest) ← takeAttached? rules next rest cs
        some (⟨rule.flag, none⟩ :: others, rest)

/-- The options that an argument gives, and the arguments after their values. A long option that
takes no value can have none attached. -/
def takeGiven? (rules : List (OptionRule φ)) (rule : OptionRule φ) (name : String)
    (attached : Option String) (rest : List (Argument φ)) :
    Option (List (Given φ) × List (Argument φ)) :=
  match attached with
  | none => (takeOption? rule rest).map fun (given, rest) => ([given], rest)
  | some text =>
    if rule.takesValue then some ([⟨rule.flag, some text⟩], rest)
    else if "--".toList.isPrefixOf name.toList then none
    else takeAttached? rules rule rest text.toList

end Interchange.CommandLine
