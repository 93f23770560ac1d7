import Interchange.Document.Bag
import Interchange.Document.Node
import Interchange.Number.Digits

/-!
# Documents

The form between every reader and every writer: a tree of nodes, the properties of the whole, the
resources that nodes refer to by identifier and, where a reader was asked to keep it, what is known
of the format that the document came from. A resource is data with a type, and identifiers are
counted up. In messages each kind of thing has one line: what it is, and its parts or their number.
-/
namespace Interchange

structure ResourceId (τ : Type := String) where
  text : τ
deriving DecidableEq, Inhabited

structure Resource (τ : Type := String) where
  mimeType : τ
  data : ByteArray
  name : Option τ
  metadata : Bag τ
deriving Inhabited

namespace Resource

def ofData (mimeType : String) (data : ByteArray) : Resource := ⟨mimeType, data, none, .empty⟩

def png (data : ByteArray) : Resource := ofData "image/png" data

def jpeg (data : ByteArray) : Resource := ofData "image/jpeg" data

def withName (resource : Resource) (name : String) : Resource :=
  { resource with name := some name }

def same (left right : Resource) : Bool :=
  left.mimeType == right.mimeType && left.data.data == right.data.data && left.name == right.name &&
    Bag.same left.metadata right.metadata

end Resource

/-- A stem and the number that follows it in the next identifier. -/
structure IdSource where
  stem : String
  next : Int
deriving DecidableEq, Inhabited

namespace IdSource

def standard : IdSource := ⟨"res_", 0⟩

def nth (ids : IdSource) (n : Int) : ResourceId := ⟨ids.stem ++ Number.intText n⟩

/-- The next identifier, and the source that follows. -/
def mint (ids : IdSource) : ResourceId × IdSource :=
  (ids.nth ids.next, { ids with next := ids.next + 1 })

end IdSource

structure SourceInfo (τ : Type := String) where
  format : τ
  metadata : Bag τ
deriving Inhabited

namespace SourceInfo

def same (left right : SourceInfo) : Bool :=
  left.format == right.format && Bag.same left.metadata right.metadata

end SourceInfo

abbrev ResourceTable (τ : Type := String) := OrderedMap (ResourceId τ) (Resource τ)

structure Document (τ : Type := String) [Textual τ] where
  content : Node τ
  metadata : Bag τ
  source : Option (SourceInfo τ)
  resources : ResourceTable τ

namespace Document

def ofContent (content : Node) : Document := ⟨content, .empty, none, .empty⟩

def empty : Document := ofContent (.leaf .document)

instance : Inhabited Document := ⟨empty⟩

/-- The document with a resource under a new identifier. -/
def embed (doc : Document) (ids : IdSource) (resource : Resource) :
    ResourceId × Document × IdSource :=
  let (id, ids) := ids.mint
  (id, { doc with resources := doc.resources.insert id resource }, ids)

def resource? (doc : Document) (id : ResourceId) : Option Resource := doc.resources.get? id

/-- The resource that a property of a node names. -/
def named? (doc : Document) (name : String) : Option Resource := doc.resource? ⟨name⟩

def removeResource (doc : Document) (id : ResourceId) : Document :=
  { doc with resources := doc.resources.erase id }

/-- What the source says about itself when it is of the given format. -/
def sourceMetadata? (doc : Document) (format : String) : Option Bag :=
  match doc.source with
  | some info => if info.format = format then some info.metadata else none
  | none => none

end Document

open Text (quoted)

private def shownOption : Option String → String
  | some s => quoted s
  | none => Json.shown (.null : Json)

def Bag.shown (bag : Bag) : String := "Properties(" ++ (Bag.toJson bag).shown ++ ")"

def Node.shown (node : Node) : String :=
  "Node(" ++ quoted node.kind.name ++ ", props=" ++ (Bag.toJson node.props).shown ++
    ", children=" ++ Number.natText node.children.length ++ ")"

def ResourceId.shown (id : ResourceId) : String := "ResourceId(" ++ quoted id.text ++ ")"

def Resource.shown (resource : Resource) : String :=
  "Resource(name=" ++ shownOption resource.name ++ ", mime_type=" ++ quoted resource.mimeType ++
    ", size=" ++ Number.natText resource.data.size ++ ")"

def Document.shown (doc : Document) : String :=
  "Document(children=" ++ Number.natText doc.content.children.length ++ ", resources=" ++
    Number.natText doc.resources.size ++ ", source=" ++ shownOption (doc.source.map (·.format)) ++
    ")"

end Interchange
