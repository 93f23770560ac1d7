import Interchange.Document.Respelling
import Interchange.Text.Encoding

/-!
# Documents as JSON values

The lossless form of a document: every node, property, span and resource, and what is known of the
source. Reading accepts what writing produces, and leaves out nothing that writing puts in; a tree
of more than 256 levels below the root is refused. All texts are wide, as JSON has them; what is
said of a fault has the replacement character for a half.
-/
namespace Interchange.Native

def version : Int := 1

/-- The member that marks a document. -/
def markerName : String := "docshift"

/-- The levels that a tree may have below its root. -/
def depthLimit : Nat := 256

/-- Why a JSON value is no document. -/
inductive Fault where
  | tooDeep
  | notObject (what : String)
  | wrongMember (name kind : String)
  | emptyKind
  | badSpan
  | span (start stop : Int)
  | property (fault : ValueFault)
  | badData (resource : String)
  /-- Data with characters that no alphabet for bytes has. -/
  | foreignData
deriving DecidableEq

def Fault.message : Fault → String
  | .tooDeep => "tree deeper than " ++ Number.natText depthLimit ++ " levels"
  | .notObject what => what ++ " must be an object"
  | .wrongMember name kind => "'" ++ name ++ "' must be " ++ kind
  | .emptyKind => "node kind must not be empty"
  | .badSpan => "span must be [start, end]"
  | .span start stop => Span.faultMessage start stop
  | .property fault => fault.message
  | .badData resource => "resource " ++ resource ++ " data is not base64"
  | .foreignData => "string argument should contain only ASCII characters"

def encodeSpan : Option Span → Json Wide
  | some span => .list [.int span.start, .int span.stop]
  | none => .null

mutual

def encodeNode : Node Wide → Json Wide
  | ⟨kind, props, children, span⟩ => .object [
      ("kind", .text kind.name),
      ("props", Bag.toJson props),
      ("children", .list (encodeNodes children)),
      ("span", encodeSpan span)]

def encodeNodes : List (Node Wide) → List (Json Wide)
  | [] => []
  | node :: nodes => encodeNode node :: encodeNodes nodes

end

def encodeResource (resource : Resource Wide) : Json Wide := .object [
  ("name", match resource.name with
    | some name => .text name
    | none => .null),
  ("mime_type", .text resource.mimeType),
  ("data", .text (Text.Base64.encode resource.data)),
  ("metadata", Bag.toJson resource.metadata)]

def encodeSource : Option (SourceInfo Wide) → Json Wide
  | some info => .object [("format", .text info.format), ("metadata", Bag.toJson info.metadata)]
  | none => .null

def encode (doc : Document Wide) : Json Wide := .object [
  (markerName, .int version),
  ("content", encodeNode doc.content),
  ("metadata", Bag.toJson doc.metadata),
  ("source", encodeSource doc.source),
  ("resources", .object (doc.resources.entries.map fun e => (e.1.text, encodeResource e.2)))]

def requireText (members : List (Wide × Json Wide)) (name : String) : Except Fault Wide :=
  match Json.member members name with
  | .text s => .ok s
  | _ => .error (.wrongMember name "str")

def decodeBag : Json Wide → Except Fault (Bag Wide)
  | .null => .ok .empty
  | .object members => (Bag.ofMembers members).mapError .property
  | _ => .error (.notObject "properties")

def decodeSpan : Json Wide → Except Fault (Option Span)
  | .null => .ok none
  | .list [.int start, .int stop] =>
    match Span.ofInts? start stop with
    | some span => .ok (some span)
    | none => .error (.span start stop)
  | _ => .error .badSpan

/-- The items of a list; a value that does not count as set is an empty list. -/
def decodeItems (value : Json Wide) : Except Fault (List (Json Wide)) :=
  match value with
  | .list items => .ok items
  | value => if value.isTruthy then .error (.wrongMember "children" "a list") else .ok []

/-- A tree that has at most the given number of levels. -/
def decodeLevels : Nat → Json Wide → Except Fault (Node Wide)
  | 0, _ => .error .tooDeep
  | levels + 1, .object members => do
    let name ← requireText members "kind"
    match Kind.ofName? name with
    | none => .error .emptyKind
    | some kind =>
      let span ← decodeSpan (Json.member members "span")
      let items ← decodeItems (Json.member members "children")
      let props ← decodeBag (Json.member members "props")
      let children ← items.mapM (decodeLevels levels)
      .ok ⟨kind, props, children, span⟩
  | _ + 1, _ => .error (.notObject "node")

def decodeNode (value : Json Wide) : Except Fault (Node Wide) := decodeLevels (depthLimit + 1) value

def decodeData (id data : Wide) : Except Fault ByteArray :=
  if data.points.all Point.isAscii then
    match Text.Base64.decode? data.whole with
    | some bytes => .ok bytes
    | none => .error (.badData id.whole)
  else .error .foreignData

def decodeResource (id : Wide) : Json Wide → Except Fault (Resource Wide)
  | .object members => do
    let data ← requireText members "data"
    let bytes ← decodeData id data
    let mimeType ← requireText members "mime_type"
    let metadata ← decodeBag (Json.member members "metadata")
    let name := match Json.member members "name" with
      | .text s => some s
      | _ => none
    .ok ⟨mimeType, bytes, name, metadata⟩
  | _ => .error (.notObject ("resource " ++ id.whole))

def decodeSource : Json Wide → Except Fault (Option (SourceInfo Wide))
  | .null => .ok none
  | .object members => do
    let format ← requireText members "format"
    let metadata ← decodeBag (Json.member members "metadata")
    .ok (some ⟨format, metadata⟩)
  | _ => .error (.notObject "'source'")

/-- The members of an object; a value that does not count as set has none. -/
def decodeTable (value : Json Wide) : Except Fault (List (Wide × Json Wide)) :=
  match value with
  | .object members => .ok members
  | value => if value.isTruthy then .error (.notObject "'resources'") else .ok []

def decodeResources (members : List (Wide × Json Wide)) : Except Fault (ResourceTable Wide) :=
  members.foldlM (fun (table : ResourceTable Wide) (id, entry) =>
    (decodeResource id entry).map (table.insert ⟨id⟩)) .empty

def decode : Json Wide → Except Fault (Document Wide)
  | .object members => do
    let content ← decodeNode (Json.member members "content")
    let metadata ← decodeBag (Json.member members "metadata")
    let source ← decodeSource (Json.member members "source")
    let table ← decodeTable (Json.member members "resources")
    let resources ← decodeResources table
    .ok ⟨content, metadata, source, resources⟩
  | _ => .error (.notObject "document")

end Interchange.Native
