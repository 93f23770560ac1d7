import Interchange.Json.Basic
import Interchange.Native.Codec
import Interchange.Transfer

/-!
# Native documents as text

A native document is read from JSON text that has the marker of a known version and a document at
its root. It is written on one line, or indented when that is asked for; the indentation may be a
number of spaces or any text. A half of a pair that stands alone is kept when it is read; it can be
written only where every character outside ASCII is escaped.
-/
namespace Interchange.Native

def readVersion (members : List (Wide × Json Wide)) : Except ReadError Unit :=
  match Json.member? members markerName with
  | none => .error (.malformed .unmarked)
  | some (.int n) =>
    if n = version then .ok () else .error (.dialect ("json version " ++ Number.intText n))
  | some found => .error (.malformed (.badMarker found))

def readDocument (value : Json Wide) : Except ReadError (Document Wide) :=
  match value with
  | .object members => do
    readVersion members
    match decode value with
    | .error .foreignData => .error .foreignData
    | .error fault => .error (.malformed (.native fault))
    | .ok doc =>
      if doc.content.kind = Kind.document.widen then .ok doc
      else .error (.malformed (.badRoot doc.content.kind.name.whole))
  | _ => .error (.malformed .unmarked)

def read (data : ByteArray) (_ : ReadOptions) : ReadResult Wide :=
  let decoded := Reading.decodeText data
  match Json.parse decoded.value with
  | .error failure => .error (.malformed (.json failure decoded.value))
  | .ok value => (readDocument value).map fun doc => ⟨doc, decoded.warnings⟩

def indentName : String := "indent"

def asciiName : String := "ensure_ascii"

def writeSettings : Settings := .ofList [(indentName, .int 2), (asciiName, .bool false)]

/-- A setting read as an indentation: a text stands for itself, a number for that many spaces. -/
def indentation : Json → Except OptionFault (Option (List Char))
  | .null => .ok none
  | .text s => .ok (some s.toList)
  | .int n => .ok (some (List.replicate n.toNat ' '))
  | .bool b => .ok (some (if b then [' '] else []))
  | value => .error (.notCount value.kindName)

def settings (options : WriteOptions) : Settings := Settings.merge writeSettings options.extra

/-- Whether every character outside ASCII is escaped. -/
def escapesAll (options : WriteOptions) : Bool :=
  ((settings options).getOr asciiName (.bool false)).isTruthy

def style (options : WriteOptions) : Except OptionFault Json.Style := do
  if options.isPretty then
    let indent ← indentation ((settings options).getOr indentName (.int 2))
    .ok ⟨indent, escapesAll options⟩
  else .ok ⟨none, escapesAll options⟩

def write (doc : Document Wide) (options : WriteOptions) : Except WriteError (Outcome String) :=
  match style options with
  | .ok style =>
    match Text.encodable (Json.print style (encode doc)) with
    | .ok text => .ok (.ok text)
    | .error fault => .error (.encoding fault)
  | .error fault => .error (.options fault)

end Interchange.Native
