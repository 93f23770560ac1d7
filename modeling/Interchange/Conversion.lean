import Interchange.FileTree
import Interchange.Format
import Interchange.Native.Text
import Interchange.Transfer
import Interchange.Transform.Basic

/-!
# Conversion

Reading, transforming and writing by the names of formats, and from a file to a file, whose
directory is made if need be. What ends a conversion is an error: each has a cause, and its message
is one line. A document is wide from the one end to the other; only the native format reads and
writes halves of pairs, and the other formats and the transforms have the replacement character for
them.
-/
namespace Interchange

inductive Error where
  | read (error : ReadError)
  | write (error : WriteError)
  | transform (fault : TransformFault)
  | resolution (fault : ResolutionFault)
  /-- No reader has the name. -/
  | noReader (name : String)
  /-- No writer has the name. -/
  | noWriter (name : String)
  | unreadable (cause : String)
  | unwritable (cause : String)
  /-- A path that was not looked at. -/
  | badPath (cause : String)
  /-- A kind of node that a writer cannot pass over. -/
  | unsupportedNode (kind : String)
  | emit (reason : String)

def Error.message : Error → String
  | .read error => error.message
  | .write error => error.message
  | .transform fault => fault.message
  | .resolution fault => fault.message
  | .noReader name => "unsupported format: " ++ name
  | .noWriter name => "unsupported format: " ++ name
  | .unreadable cause => "io error: " ++ cause
  | .unwritable cause => "io error: " ++ cause
  | .badPath cause => cause
  | .unsupportedNode kind => "unsupported node kind: " ++ kind
  | .emit reason => reason

/-- The error for a file that cannot be read or written, as the system sees it. -/
def Error.ofFile (ofCause : String → Error) (error : FileError) : Error :=
  match error.fault with
  | .zeroInName => .badPath error.message
  | _ => ofCause error.message

namespace Format

def readWith (format : Format) (payload : Payload) (options : ReadOptions) : ReadResult Wide :=
  let widened (result : ReadResult) : ReadResult Wide :=
    result.map fun outcome => ⟨outcome.value.widen, outcome.warnings⟩
  match format with
  | .ansi => widened (Terminal.read payload.data options)
  | .csv => widened (Delimited.read .comma payload.data options)
  | .tsv => widened (Delimited.read .tab payload.data options)
  | .json => Native.read payload.data options
  | .text => widened (PlainText.read payload.data options)
  | .docx => widened (payload.readPackage options)

def read (format : Format) (payload : Payload) (options : Json) :
    Except Error (Outcome (Document Wide)) :=
  match ReadOptions.ofJson options with
  | .error fault => .error (.read (.options fault))
  | .ok options => (format.readWith payload options).mapError .read

def writeWith (format : Format) (doc : Document Wide) (options : WriteOptions) :
    Except WriteError (Outcome Output) :=
  let texts (result : Except WriteError (Outcome String)) : Except WriteError (Outcome Output) :=
    result.map fun outcome => ⟨.text outcome.value, outcome.warnings⟩
  match format with
  | .ansi => texts (Layout.write .terminal doc.narrow options)
  | .text => texts (Layout.write .plain doc.narrow options)
  | .csv => texts (Delimited.write .comma doc.narrow options)
  | .tsv => texts (Delimited.write .tab doc.narrow options)
  | .json => texts (Native.write doc options)
  | .docx =>
    (Word.write doc.narrow options).map fun outcome => ⟨.composition outcome.value, outcome.warnings⟩

def write (format : Format) (doc : Document Wide) (options : Json) : Except Error (Outcome Output) :=
  match WriteOptions.ofJson options with
  | .error fault => .error (.write (.options fault))
  | .ok options => (format.writeWith doc options).mapError .write

/-- The resources that the output of a format does not hold itself. -/
def exportable (format : Format) (doc : Document) : List (ResourceId × Resource) :=
  match format with
  | .json | .docx => []
  | _ => doc.resources.entries

end Format

namespace Conversion

def reader (name : String) : Except Error Format :=
  match Format.withName? Format.readers name with
  | some format => .ok format
  | none => .error (.noReader name)

def writer (name : String) : Except Error Format :=
  match Format.withName? Format.writers name with
  | some format => .ok format
  | none => .error (.noWriter name)

def read (name : String) (payload : Payload) (options : Json) :
    Except Error (Outcome (Document Wide)) := do
  let format ← reader name
  format.read payload options

def write (name : String) (doc : Document Wide) (options : Json) :
    Except Error (Outcome Output) := do
  let format ← writer name
  format.write doc options

/-- The document after the transforms, with room for so many levels; without transforms it stays as
it is. -/
def transformed (transforms : List Transform) (room : Nat) (doc : Document Wide) :
    Except TransformFault (Document Wide) :=
  if transforms.isEmpty then .ok doc
  else (Transform.applyAll transforms room doc.narrow).map Document.widen

/-- Reads, transforms, with room for so many levels, and writes; the warnings of reading come before
those of writing. -/
def convert (room : Nat) (source target : String) (payload : Payload) (transforms : List String)
    (readOptions writeOptions : Json) : Except Error (Outcome Output) := do
  let source ← reader source
  let target ← writer target
  let parsed ← source.read payload readOptions
  let steps ← (Transform.ofSpecs transforms).mapError .transform
  let doc ← (transformed steps room parsed.value).mapError .transform
  let written ← target.write doc writeOptions
  .ok ⟨written.value, parsed.warnings ++ written.warnings⟩

end Conversion

end Interchange

namespace Interchange.Filing

/-- The format that is named, or else the one for the file. -/
def readerFor (path : Path) (name : Option String) : Except Error Format :=
  match name with
  | some name => Conversion.reader name
  | none =>
    match Format.ofPath? path with
    | some format => .ok format
    | none => .error (.noReader (if path.suffix = "" then path.toText else path.suffix))

def read (files : FileTree) (path : Path) (name : Option String) (options : Json) :
    Except Error (Outcome (Document Wide)) := do
  let format ← readerFor path name
  let payload ← (files.read path).mapError (.ofFile .unreadable)
  format.read payload options

def write (files : FileTree) (path : Path) (name : String) (doc : Document Wide) (options : Json) :
    Except Error (Outcome FileTree) := do
  let written ← Conversion.write name doc options
  let files ← (files.save path written.value.payload).mapError (.ofFile .unwritable)
  .ok ⟨files, written.warnings⟩

end Interchange.Filing
