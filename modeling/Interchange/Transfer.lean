import Interchange.Document.Basic
import Interchange.Fidelity
import Interchange.Json.Parser
import Interchange.Native.Codec
import Interchange.Notice
import Interchange.Options
import Interchange.Text.Encoding

/-!
# Reading and writing documents

What every reader shares: its errors, the decoding of text, and the rule for keeping what is known
of the source. What every writer shares: its errors, the text that stands for a node, and what is
noted of a kind of node that the writer does not know.
-/
namespace Interchange

/-- Why input is malformed. -/
inductive Malformed where
  | json (failure : Json.Failure) (text : String)
  | unmarked
  | badMarker (found : Json Wide)
  | native (fault : Native.Fault)
  | badRoot (kind : String)
  /-- The package cannot be opened. -/
  | unreadablePackage
  /-- The package can be opened, but a part that is needed is damaged. -/
  | damagedPackage

def Malformed.message : Malformed → String
  | .json failure text => "not valid JSON: " ++ failure.message text
  | .unmarked => "missing '" ++ Native.markerName ++ "' version marker"
  | .badMarker found => "version marker must be an integer, got " ++ found.shown
  | .native fault => fault.message
  | .badRoot kind => "root node must be 'document', got '" ++ kind ++ "'"
  | .unreadablePackage => "not a readable .docx package"
  | .damagedPackage => "damaged .docx package"

inductive ReadError where
  | malformed (cause : Malformed)
  /-- A known format in a version that is not read. -/
  | dialect (name : String)
  | options (fault : OptionFault)
  /-- The data of a resource holds characters outside ASCII. -/
  | foreignData

def ReadError.message : ReadError → String
  | .malformed cause => "invalid input: " ++ cause.message
  | .dialect name => "unsupported format: " ++ name
  | .options fault => fault.message
  | .foreignData => Native.Fault.foreignData.message

abbrev ReadResult (τ : Type := String) [Textual τ] := Except ReadError (Outcome (Document τ))

namespace Reading

/-- The text of the input, with a warning when it is not UTF-8. -/
def decodeText (data : ByteArray) : Outcome String :=
  match Text.decode data with
  | (text, none) => .ok text
  | (text, some fallback) =>
    ⟨text, [.simplified "text encoding"
      ("Input is not valid UTF-8; decoded as " ++ fallback.label)]⟩

/-- What is known of the source, where the options ask to keep it. -/
def sourceInfo (options : ReadOptions) (format : String) (metadata : Bag) : Option SourceInfo :=
  if options.preserves then some ⟨format, metadata⟩ else none

end Reading

inductive WriteError where
  | options (fault : OptionFault)
  | encoding (fault : Text.Unencodable)

def WriteError.message : WriteError → String
  | .options fault => fault.message
  | .encoding fault => fault.message

/-- What stands for a node in plain text: the source of a formula, or else the text in it. -/
def Node.plainText (node : Node) : String :=
  match Bag.filled? node.props Key.mathSource with
  | some source => source
  | none => node.textContent

/-- A node of a kind that the writer does not know is written as its text, or dropped when it has
none. -/
def Notice.ofUnknown (node : Node) : Notice :=
  let kind := node.kind.name
  .once (.fallback kind)
    (if node.plainText = "" then
      .featureLost kind ("No handler for '" ++ kind ++ "' and no text content; dropped")
    else .simplified kind ("No handler for '" ++ kind ++ "'; written as plain text"))

/-- What the source says about itself, where the options let the writer of a format use it. -/
def WriteOptions.sourceMetadata? (options : WriteOptions) (doc : Document) (format : String) :
    Option Bag :=
  if options.usesSource then doc.sourceMetadata? format else none

end Interchange
