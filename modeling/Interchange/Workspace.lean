import Interchange.Transform.Basic

/-!
# A workspace of documents

Named documents side by side, with one source of identifiers for all of them. What can be edited in
place are objects: trees, with all their nodes, property bags and resources. A document refers to
objects and does not hold their values. What a caller hands to it is a new object or one that was
there before, in this or in another document, so that two documents may share an object; an edit of
it then shows in both. A copy has objects of its own. A transformed document has a tree and metadata
of its own and shares the resources and what is known of the source with the document that it came
from.
-/
namespace Interchange

/-- An object and its value. -/
inductive Cell where
  | tree (content : Node)
  | bag (props : Bag)
  | resource (resource : Resource)

/-- The values of one kind of object. -/
class Kept (α : Type) extends Inhabited α where
  toCell : α → Cell
  ofCell? : Cell → Option α
  ofCell?_toCell : ∀ value, ofCell? (toCell value) = some value

instance : Kept Node where
  toCell := .tree
  ofCell? | .tree content => some content | _ => none
  ofCell?_toCell _ := rfl

instance : Kept Bag where
  toCell := .bag
  ofCell? | .bag props => some props | _ => none
  ofCell?_toCell _ := rfl

instance : Kept Resource where
  toCell := .resource
  ofCell? | .resource resource => some resource | _ => none
  ofCell?_toCell _ := rfl

/-- What a caller hands over: a new object with a value, or the object with a number. -/
inductive Given (α : Type) where
  | fresh (value : α)
  | held (n : Nat)

/-- What is known of the source: a name, and a bag given by its number. -/
structure Origin where
  format : String
  metadata : Nat
deriving Inhabited

/-- A document whose parts are objects, given by their numbers. -/
structure Sheet where
  content : Nat
  metadata : Nat
  origin : Option Origin
  resources : OrderedMap ResourceId Nat
deriving Inhabited

structure Workspace where
  ids : IdSource
  cells : Array Cell
  sheets : OrderedMap String Sheet
  current : String
deriving Inhabited

inductive StepFault where
  | missing
  | property (fault : ValueFault)
  | transform (fault : TransformFault)

namespace Workspace

variable {α : Type} [Kept α]

def firstName : String := "a"

def sheet (space : Workspace) : Sheet := (space.sheets.get? space.current).getD default

def putSheet (space : Workspace) (sheet : Sheet) : Workspace :=
  { space with sheets := space.sheets.insert space.current sheet }

/-- The value of an object, if there is one of this kind. -/
def value? (space : Workspace) (n : Nat) : Option α := (space.cells[n]?).bind Kept.ofCell?

def value (space : Workspace) (n : Nat) : α := (space.value? n).getD default

/-- The number of a new object, and the workspace that has it. -/
def add (space : Workspace) (value : α) : Nat × Workspace :=
  (space.cells.size, { space with cells := space.cells.push (Kept.toCell value) })

/-- The number of the object that is handed over. A number of no object of the kind stands for a new
one with nothing in it. -/
def accept (space : Workspace) : Given α → Nat × Workspace
  | .fresh value => space.add value
  | .held n => if (space.value? n : Option α).isSome then (n, space) else space.add (default : α)

/-- An object edited in place. -/
def edit (space : Workspace) (n : Nat) (value : α) : Workspace :=
  { space with cells := space.cells.setIfInBounds n (Kept.toCell value) }

/-- What a sheet stands for. -/
def document (space : Workspace) (sheet : Sheet) : Document :=
  { content := space.value sheet.content
    metadata := space.value sheet.metadata
    source := sheet.origin.map fun origin => ⟨origin.format, space.value origin.metadata⟩
    resources := sheet.resources.mapValues space.value }

def currentDocument (space : Workspace) : Document := space.document space.sheet

def addOrigin (space : Workspace) : Option SourceInfo → Option Origin × Workspace
  | none => (none, space)
  | some info =>
    let (n, space) := space.add info.metadata
    (some ⟨info.format, n⟩, space)

/-- The resources of a table in new objects, one after the other. -/
def addTable (space : Workspace) (table : ResourceTable) :
    OrderedMap ResourceId Nat × Workspace :=
  (table.numbered space.cells.size,
    { space with cells := space.cells ++ (table.values.map Kept.toCell).toArray })

/-- A sheet for a document, all in new objects. -/
def addDocument (space : Workspace) (doc : Document) : Sheet × Workspace :=
  let (content, space) := space.add doc.content
  let (metadata, space) := space.add doc.metadata
  let (origin, space) := space.addOrigin doc.source
  let (resources, space) := space.addTable doc.resources
  (⟨content, metadata, origin, resources⟩, space)

/-- An empty document under the first name. -/
def start (ids : IdSource) : Workspace :=
  let (sheet, space) := addDocument ⟨ids, #[], .empty, firstName⟩ .empty
  space.putSheet sheet

def insert (space : Workspace) (id : ResourceId) (given : Given Resource) : Workspace :=
  let (n, space) := space.accept given
  let sheet := space.sheet
  space.putSheet { sheet with resources := sheet.resources.insert id n }

def nextId (space : Workspace) : ResourceId × Workspace :=
  let (id, ids) := space.ids.mint
  (id, { space with ids })

def embed (space : Workspace) (given : Given Resource) : ResourceId × Workspace :=
  let (id, space) := space.nextId
  (id, space.insert id given)

def remove (space : Workspace) (id : ResourceId) : Workspace :=
  let sheet := space.sheet
  space.putSheet { sheet with resources := sheet.resources.erase id }

/-- A new resource, the same but for its name, in the place of one. -/
def rename (space : Workspace) (id : ResourceId) (name : String) : Except StepFault Workspace :=
  match space.currentDocument.resource? id with
  | some resource => .ok (space.insert id (.fresh (resource.withName name)))
  | none => .error .missing

def setIn (bag : Bag) (name : String) (value : Json) : Except StepFault Bag :=
  (Bag.set bag name value).mapError .property

def editBag (space : Workspace) (n : Nat) (name : String) (value : Json) :
    Except StepFault Workspace := do
  let bag ← setIn (space.value n) name value
  .ok (space.edit n bag)

/-- Sets a property of a resource in place. -/
def editResource (space : Workspace) (id : ResourceId) (name : String) (value : Json) :
    Except StepFault Workspace :=
  match space.sheet.resources.get? id with
  | none => .error .missing
  | some n => do
    let resource : Resource := space.value n
    let metadata ← setIn resource.metadata name value
    .ok (space.edit n { resource with metadata })

/-- Sets a property of what is known of the source in place. -/
def editSource (space : Workspace) (name : String) (value : Json) : Except StepFault Workspace :=
  match space.sheet.origin with
  | none => .error .missing
  | some origin => space.editBag origin.metadata name value

def editMetadata (space : Workspace) (name : String) (value : Json) :
    Except StepFault Workspace :=
  space.editBag space.sheet.metadata name value

/-- Sets a property in place of the node that the child indexes lead to. -/
def editContent (space : Workspace) (path : List Nat) (name : String) (value : Json) :
    Except StepFault Workspace :=
  let content : Node := space.value space.sheet.content
  match content.modifyAt? (fun node => node.set name value) path with
  | none => .error .missing
  | some (.error fault) => .error (.property fault)
  | some (.ok content) => .ok (space.edit space.sheet.content content)

def setContent (space : Workspace) (given : Given Node) : Workspace :=
  let (content, space) := space.accept given
  space.putSheet { space.sheet with content }

def setMetadata (space : Workspace) (given : Given Bag) : Workspace :=
  let (metadata, space) := space.accept given
  space.putSheet { space.sheet with metadata }

def setSource (space : Workspace) (format : String) (given : Given Bag) : Workspace :=
  let (metadata, space) := space.accept given
  space.putSheet { space.sheet with origin := some ⟨format, metadata⟩ }

/-- A copy of the current document under a name. -/
def copy (space : Workspace) (name : String) : Workspace :=
  let (sheet, space) := space.addDocument space.currentDocument
  { space with sheets := space.sheets.insert name sheet }

/-- The current document transformed, under a name, where there is room for so many levels. A source
that is kept is the same object, and so is every resource. -/
def transform (space : Workspace) (name : String) (transform : Transform) (room : Nat) :
    Except StepFault Workspace :=
  let sheet := space.sheet
  match transform.apply room space.currentDocument with
  | .error fault => .error (.transform fault)
  | .ok doc =>
    let (content, space) := space.add doc.content
    let (metadata, space) := space.add doc.metadata
    let origin := if doc.source.isSome then sheet.origin else none
    .ok { space with
      sheets := space.sheets.insert name ⟨content, metadata, origin, sheet.resources⟩ }

def switchTo (space : Workspace) (name : String) : Except StepFault Workspace :=
  if space.sheets.contains name then .ok { space with current := name } else .error .missing

end Workspace

end Interchange
