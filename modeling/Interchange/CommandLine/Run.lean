import Interchange.CommandLine.Request
import Interchange.Conversion
import Interchange.Media

/-!
# Running requests

A request is carried out on a tree of files and the standard input. It gives an exit code, what
goes to the two standard outputs, and the files afterwards, which keep what was written before an
error. An error of conversion is reported on a line; a value that no document can hold and a name
that no file can have are not foreseen and end the run without a report.
-/
namespace Interchange.CommandLine

structure Report where
  exitCode : Nat
  output : Output
  /-- The lines for the operator. -/
  lines : List String
  files : FileTree

namespace Report

def ofText (text : String) (files : FileTree) : Report := ⟨0, .text text, [], files⟩

end Report

/-- Whether an error is reported on a line. -/
def isReported : Error → Bool
  | .read (.malformed _) | .read (.dialect _) => true
  | .read (.options _) | .read .foreignData | .write _ => false
  | .transform (.level _) | .badPath _ => false
  | _ => true

/-- An error after some output and some files were written. -/
structure Stopped where
  error : Error
  output : Output
  files : FileTree

abbrev Run (α : Type) := Except Stopped α

namespace ConvertRequest

def readOptions (request : ConvertRequest) : ReadOptions :=
  ⟨.bool request.preserveSource, .bool request.embeds, .empty⟩

def writeOptions (request : ConvertRequest) : WriteOptions :=
  ⟨.bool request.pretty, .bool request.useSource, .empty⟩

/-- The file that is written, unless the output goes to the standard output. -/
def outputFile? (request : ConvertRequest) : Option String :=
  request.output.filter (· ≠ Format.standardStream)

def readInput (request : ConvertRequest) (files : FileTree) (input : Payload) : Except Error Payload :=
  if request.input = Format.standardStream then .ok input
  else (files.read (.ofText request.input)).mapError (.ofFile .unreadable)

/-- The document after the transforms, and the output for it, with all warnings. -/
structure Converted where
  document : Document Wide
  target : Format
  outcome : Outcome Output

def convert (request : ConvertRequest) (room : Nat) (files : FileTree) (input : Payload) :
    Except Error Converted := do
  let source ← (Format.resolve request.source (some request.input) .input).mapError .resolution
  let target ← (Format.resolve request.target request.output .output).mapError .resolution
  let transforms ← (Transform.ofSpecs request.transforms).mapError .transform
  let payload ← request.readInput files input
  let parsed ← (source.readWith payload request.readOptions).mapError .read
  let document ← (Conversion.transformed transforms room parsed.value).mapError .transform
  let written ← (target.writeWith document request.writeOptions).mapError .write
  .ok ⟨document, target, ⟨written.value, parsed.warnings ++ written.warnings⟩⟩

/-- The standard output and the files after the output is written. -/
def writeOutput (request : ConvertRequest) (files : FileTree) (output : Output) :
    Except FileError (Output × FileTree) :=
  match request.outputFile? with
  | none => .ok (output, files)
  | some name => (files.save (.ofText name) output.payload).map fun files => (.text "", files)

/-- What is said of extracted media; nothing when the output goes to the standard output. -/
def mediaLines (request : ConvertRequest) (directory : String) (count : Nat) : List String :=
  if request.outputFile?.isNone then []
  else ["✓ Extracted " ++ Number.natText count ++ " resource(s) to " ++ directory]

/-- The directory for media files, when there is to be one. -/
def mediaDirectory? (request : ConvertRequest) : Option String := request.media.filter (· ≠ "")

/-- The files and directories that are named. -/
def paths (request : ConvertRequest) : List Path :=
  let input := some request.input |>.filter (· ≠ Format.standardStream)
  [input, request.outputFile?, request.mediaDirectory?].filterMap (·.map .ofText)

def run (request : ConvertRequest) (room : Nat) (files : FileTree) (input : Payload) :
    Run Report := do
  let converted ← (request.convert room files input).mapError fun e => ⟨e, .text "", files⟩
  let (output, files) ← (request.writeOutput files converted.outcome.value).mapError fun e =>
    ⟨.ofFile .unwritable e, .text "", files⟩
  let warnings := converted.outcome.warnings.map Warning.line
  match request.mediaDirectory? with
  | none => .ok ⟨0, output, warnings, files⟩
  | some directory =>
    let resources := converted.target.exportable converted.document.narrow
    match Media.extract (.ofText directory) files resources with
    | (files, none) => .ok ⟨0, output, request.mediaLines directory resources.length ++ warnings, files⟩
    | (files, some error) => .error ⟨.ofFile .unwritable error, output, files⟩

end ConvertRequest

def padRight (width : Nat) (text : String) : String :=
  text ++ String.ofList (List.replicate (width - text.length) ' ')

/-- The table of formats, its first column as wide as the longest entry. -/
def formatsText : String :=
  let heading := "FORMAT"
  let width := (heading :: Format.all.map Format.name).foldl (fun n name => max n name.length) 0
  let row (format : Format) : String :=
    padRight width format.name ++ "  yes   yes    " ++ ", ".intercalate (format.extensions.mergeSort (· ≤ ·))
  "\n".intercalate ((padRight width heading ++ "  READ  WRITE  EXTENSIONS") :: Format.all.map row) ++ "\n"

def transformsText : String :=
  String.join (Transform.catalog.map fun (name, description) => "  " ++ name ++ ": " ++ description ++ "\n")

def Request.run (request : Request) (room : Nat) (files : FileTree) (input : Payload) :
    Run Report :=
  match request with
  | .convert request => request.run room files input
  | .formats => .ok (.ofText formatsText files)
  | .transforms => .ok (.ofText transformsText files)

/-- The report of a request; an error that is not reported is the result itself. The room is that of
the transforms. -/
def report (request : Request) (room : Nat) (files : FileTree) (input : Payload) :
    Except Error Report :=
  match request.run room files input with
  | .ok report => .ok report
  | .error stopped =>
    if isReported stopped.error then
      .ok ⟨1, stopped.output, ["error: " ++ stopped.error.message], stopped.files⟩
    else .error stopped.error

end Interchange.CommandLine
