import Interchange.Delimited.Tables
import Interchange.Layout.Reader
import Interchange.Layout.Writer
import Interchange.Native.Text
import Interchange.Path
import Interchange.Word.Writer

/-!
# The catalog of formats

The formats that can be read and written, found by name or by the extension of a file, in any case
of letters.
-/
namespace Interchange

inductive Format where
  | ansi
  | csv
  | docx
  | json
  | text
  | tsv
deriving DecidableEq

namespace Format

/-- The formats in the order of their names. -/
def all : List Format := [.ansi, .csv, .docx, .json, .text, .tsv]

def name : Format → String
  | .ansi => Terminal.formatName
  | .csv => Delimited.Dialect.comma.formatName
  | .docx => Word.formatName
  | .json => "json"
  | .text => PlainText.formatName
  | .tsv => Delimited.Dialect.tab.formatName

/-- The extensions of a format, the usual one first. -/
def extensions : Format → List String
  | .ansi => [".ans", ".ansi"]
  | .csv => [".csv"]
  | .docx => [".docx"]
  | .json => [".json"]
  | .text => [".txt", ".text"]
  | .tsv => [".tsv", ".tab"]

def extension (format : Format) : String := format.extensions.headD ""

/-- Of the formats for one file the one with the highest priority is taken. -/
def priority : Format → Nat
  | .docx => 100
  | _ => 0

def isBinary (format : Format) : Bool := format == .docx

def readSettings : Format → Settings
  | .csv | .tsv => Delimited.readSettings
  | _ => .empty

def writeSettings : Format → Settings
  | .ansi | .text => Layout.writeSettings
  | .csv | .tsv => Delimited.writeSettings
  | .json => Native.writeSettings
  | .docx => Word.writeSettings

/-- The letters of ASCII in lower case. No other letter has one of those that occur in a name or an
extension as its lower case. -/
def lower (text : String) : String := String.ofList (text.toList.map Char.toLower)

/-- The formats that can be read, in the order in which they were registered. -/
def readers : List Format := [.text, .ansi, .csv, .tsv, .json, .docx]

/-- The formats that can be written, in the order in which they were registered. -/
def writers : List Format := [.text, .ansi, .csv, .tsv, .json, .docx]

def withName? (formats : List Format) (name : String) : Option Format :=
  formats.find? (·.name = lower name)

def ofName? (name : String) : Option Format := withName? all name

/-- Whether files with an extension are in the format, in any case of letters. -/
def claims (extension : String) (format : Format) : Bool :=
  lower extension ∈ format.extensions.map lower

/-- The format that is to read a file: the files of several formats are taken by the one with the
highest priority, or of those the one that was registered first. -/
def ofPath? (path : Path) : Option Format :=
  ((readers.filter (claims path.suffix)).mergeSort fun format other =>
    other.priority ≤ format.priority).head?

/-- An extension with its dot, which may have been left out. -/
def dotted (extension : String) : String :=
  if extension.startsWith "." then extension else "." ++ extension

def readerOfExtension? (extension : String) : Option Format :=
  (readers.filter (claims (dotted extension))).maxOn? priority

def writerOfExtension? (extension : String) : Option Format :=
  writers.find? (claims (dotted extension))

/-- The entry of the catalog for an extension that can be read. -/
def ofExtension? (extension : String) : Option Format :=
  (readerOfExtension? (dotted extension)).bind fun format => ofName? format.name

/-- The entry of the catalog for an extension that can be written. -/
def ofWrittenExtension? (extension : String) : Option Format :=
  (writerOfExtension? (dotted extension)).bind fun format => ofName? format.name

end Format

inductive Direction where
  | input
  | output
deriving DecidableEq

namespace Direction

def name : Direction → String
  | .input => "input"
  | .output => "output"

/-- What takes part in the direction. -/
def agent : Direction → String
  | .input => "reader"
  | .output => "writer"

def formats : Direction → List Format
  | .input => Format.readers
  | .output => Format.writers

def ofExtension? : Direction → String → Option Format
  | .input => Format.ofExtension?
  | .output => Format.ofWrittenExtension?

end Direction

/-- Why no format is found for an input or an output. -/
inductive ResolutionFault where
  | unknown (name : String)
  | unavailable (direction : Direction) (format : Format)
  | undetermined (direction : Option Direction)
  | other (reason : String)

def ResolutionFault.message : ResolutionFault → String
  | .unknown name => "unknown format: " ++ name
  | .unavailable direction format =>
    "no " ++ direction.agent ++ " available for " ++ format.name ++ " format"
  | .undetermined none => "cannot determine format - specify explicitly"
  | .undetermined (some direction) =>
    "cannot determine " ++ direction.name ++ " format - specify explicitly"
  | .other reason => reason

namespace Format

/-- The name of a file that stands for the standard input or output. -/
def standardStream : String := "-"

/-- The format of a file that is not a standard stream, by its extension. -/
def ofFile? (path : Option String) (direction : Direction) : Option Format :=
  match path with
  | none => none
  | some file =>
    let suffix := (Path.ofText file).suffix
    if file = standardStream ∨ suffix = "" then none else direction.ofExtension? suffix

/-- The format that is named, or else that of the file. -/
def resolve (explicit path : Option String) (direction : Direction) :
    Except ResolutionFault Format :=
  match explicit.filter (· ≠ "") with
  | some name =>
    match ofName? name with
    | none => .error (.unknown name)
    | some format =>
      if format ∈ direction.formats then .ok format else .error (.unavailable direction format)
  | none =>
    match ofFile? path direction with
    | some format => .ok format
    | none => .error (.undetermined (some direction))

end Format

end Interchange
