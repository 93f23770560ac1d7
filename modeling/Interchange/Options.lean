import Interchange.Json.Basic
import Interchange.OrderedMap

/-!
# Options for reading and writing

Options are given as an object or not at all. The names that a direction knows have a field of
their own; every other name is kept for the format to use or to ignore. A switch may be given any
value: it is on when the value counts as set.
-/
namespace Interchange

abbrev Settings := OrderedMap String Json

namespace Settings

/-- The settings of a format with those that a caller gave laid over them. -/
def merge (defaults given : Settings) : Settings :=
  given.entries.foldl (fun settings e => settings.insert e.1 e.2) defaults

/-- A setting, or the given value where there is none. -/
def getOr (settings : Settings) (name : String) (default : Json) : Json :=
  (settings.get? name).getD default

end Settings

/-- Why options, or the value of one of them, cannot be used. -/
inductive OptionFault where
  | notOptions (record kind : String)
  | notIterable (kind : String)
  | notPair (index : Nat)
  | pairLength (index length : Nat)
  | unhashable (kind : String)
  | notText (kind : String)
  | notCount (kind : String)
  | notJoining (kind : String)
  | styleType (found needed : String)
deriving DecidableEq

def OptionFault.message : OptionFault → String
  | .notOptions record kind => "Expected " ++ record ++ ", mapping or None, got " ++ kind
  | .notIterable kind => "'" ++ kind ++ "' object is not iterable"
  | .notPair index =>
    "cannot convert dictionary update sequence element #" ++ Number.natText index ++
      " to a sequence"
  | .pairLength index length =>
    "dictionary update sequence element #" ++ Number.natText index ++ " has length " ++
      Number.natText length ++ "; 2 is required"
  | .unhashable kind => "unhashable type: '" ++ kind ++ "'"
  | .notText kind => "can only concatenate str (not \"" ++ kind ++ "\") to str"
  | .notCount kind => "can't multiply sequence by non-int of type '" ++ kind ++ "'"
  | .notJoining kind => "'" ++ kind ++ "' object has no attribute 'join'"
  | .styleType found needed => "assigned style is type " ++ found ++ ", need type " ++ needed

namespace Settings

/-- The parts of a value that has parts: characters, items or names. -/
def parts? : Json → Option (List Json)
  | .text s => some (s.toList.map fun c => .text (String.ofList [c]))
  | .list items => some items
  | .object members => some (members.map fun m => .text m.1)
  | _ => none

/-- A list of pairs read as settings, from the pair with the given index on. -/
def ofPairs (index : Nat) (settings : Settings) : List Json → Except OptionFault Settings
  | [] => .ok settings
  | item :: items =>
    match parts? item with
    | none => .error (.notPair index)
    | some [.list _, _] => .error (.unhashable (Json.kindName (.list [] : Json)))
    | some [.object _, _] => .error (.unhashable (Json.kindName (.object [] : Json)))
    | some [.text name, value] => ofPairs (index + 1) (settings.insert name value) items
    | some [key, value] => ofPairs (index + 1) (settings.insert key.shown value) items
    | some found => .error (.pairLength index found.length)

/-- Settings given together under one name. -/
def ofValue (value : Json) : Except OptionFault Settings :=
  if !value.isTruthy then .ok .empty
  else match value with
    | .object members => .ok (.ofList members)
    | value =>
      match parts? value with
      | some items => ofPairs 0 .empty items
      | none => .error (.notIterable value.kindName)

def extraName : String := "extra"

/-- The settings that a direction has no field for. -/
def remaining (known : List String) (members : List (String × Json)) : Except OptionFault Settings :=
  (ofValue (Json.member members extraName)).map fun grouped =>
    members.foldl (fun settings (name, value) =>
      if name ∈ known ∨ name = extraName then settings else settings.insert name value) grouped

end Settings

structure ReadOptions where
  preserveSourceInfo : Json
  embedResources : Json
  extra : Settings

namespace ReadOptions

def preserveName : String := "preserve_source_info"

def embedName : String := "embed_resources"

def standard : ReadOptions := ⟨.bool false, .bool true, .empty⟩

def ofJson : Json → Except OptionFault ReadOptions
  | .null => .ok standard
  | .object members =>
    (Settings.remaining [preserveName, embedName] members).map fun extra =>
      ⟨(Json.member? members preserveName).getD (.bool false),
        (Json.member? members embedName).getD (.bool true), extra⟩
  | value => .error (.notOptions "ParseOptions" value.kindName)

/-- Whether the reader keeps what it knows of the source format. -/
def preserves (options : ReadOptions) : Bool := options.preserveSourceInfo.isTruthy

/-- Whether pictures become resources. -/
def embeds (options : ReadOptions) : Bool := options.embedResources.isTruthy

end ReadOptions

structure WriteOptions where
  pretty : Json
  useSourceInfo : Json
  extra : Settings

namespace WriteOptions

def prettyName : String := "pretty"

def useSourceName : String := "use_source_info"

def standard : WriteOptions := ⟨.bool false, .bool false, .empty⟩

def ofJson : Json → Except OptionFault WriteOptions
  | .null => .ok standard
  | .object members =>
    (Settings.remaining [prettyName, useSourceName] members).map fun extra =>
      ⟨(Json.member? members prettyName).getD (.bool false),
        (Json.member? members useSourceName).getD (.bool false), extra⟩
  | value => .error (.notOptions "EmitOptions" value.kindName)

def isPretty (options : WriteOptions) : Bool := options.pretty.isTruthy

/-- Whether the writer may use what is known of a source in its own format. -/
def usesSource (options : WriteOptions) : Bool := options.useSourceInfo.isTruthy

end WriteOptions

end Interchange
