import Interchange.Archive.Basic
import Interchange.Markup.Reader
import Interchange.Markup.Tree
import Interchange.OrderedMap
import Interchange.Path

/-!
# Packages

A package is a set of parts. Relations lead from the package to its main part and from part to part;
a relation may also lead to an address outside. A package is opened from files: the files are parts
when relations lead to them, and those of some types have to be well formed. The namespaces, the
kinds of relations and the content types that a package is made of come first.
-/
namespace Interchange.Word

open Markup (Element Name)

def formatName : String := "docx"

def schemas : String := "http://schemas.openxmlformats.org/"

/-- A name of the text of documents. -/
def w (name : String) : Name := ⟨schemas ++ "wordprocessingml/2006/main", name⟩

/-- The name of an attribute that refers to a relation. -/
def r (name : String) : Name := ⟨schemas ++ "officeDocument/2006/relationships", name⟩

def drawing (name : String) : Name := ⟨schemas ++ "drawingml/2006/main", name⟩

/-- A name of what places a drawing in the text. -/
def placing (name : String) : Name := ⟨schemas ++ "drawingml/2006/wordprocessingDrawing", name⟩

def relationList (name : String) : Name := ⟨schemas ++ "package/2006/relationships", name⟩

def typeList (name : String) : Name := ⟨schemas ++ "package/2006/content-types", name⟩

def core (name : String) : Name := ⟨schemas ++ "package/2006/metadata/core-properties", name⟩

/-- A name without a namespace. -/
def bare (name : String) : Name := ⟨"", name⟩

def documentRelation (name : String) : String :=
  schemas ++ "officeDocument/2006/relationships/" ++ name

def coreRelation : String := schemas ++ "package/2006/relationships/metadata/core-properties"

def wordType (name : String) : String :=
  "application/vnd.openxmlformats-officedocument.wordprocessingml." ++ name ++ "+xml"

def mainType : String := wordType "document.main"

def coreType : String := "application/vnd.openxmlformats-package.core-properties+xml"

/-- The types of the parts that are markup from the moment a package is opened. -/
def markupTypes : List String :=
  coreType :: ["document.main", "styles", "header", "footer", "settings", "numbering", "comments"].map wordType

inductive Target where
  /-- A part, by its name. -/
  | part (name : String)
  | address (text : String)
deriving DecidableEq

structure Relation where
  id : String
  kind : String
  target : Target
deriving DecidableEq

namespace Relation

def part? (relation : Relation) : Option String :=
  match relation.target with
  | .part name => some name
  | .address _ => none

end Relation

abbrev Relations := List Relation

namespace Relations

/-- The last relation with an identifier. -/
def get? (relations : Relations) (id : String) : Option Relation :=
  relations.reverse.find? (·.id = id)

/-- The relations by identifier: a later one takes the place of an earlier one. -/
def distinct (relations : Relations) : Relations :=
  (OrderedMap.ofList (relations.map fun relation => (relation.id, relation))).values

def ofKind (relations : Relations) (kind : String) : Relations :=
  relations.distinct.filter (·.kind = kind)

/-- The part that the last relation with an identifier leads to, of those that lead to parts. -/
def partName? (relations : Relations) (id : String) : Option String :=
  (relations.reverse.find? fun relation => relation.id = id ∧ relation.part?.isSome).bind
    Relation.part?

end Relations

inductive PartContent where
  | markup (root : Element)
  | data (bytes : ByteArray)

structure Part where
  name : String
  contentType : String
  content : PartContent
  relations : Relations

namespace Part

/-- The last word of the name. -/
def fileName (part : Part) : String := (Path.ofText part.name).name

def bytes (part : Part) : ByteArray :=
  match part.content with
  | .markup _ => .empty
  | .data bytes => bytes

/-- The tree of a part, which may be read only now. -/
def root? (part : Part) : Option Element :=
  match part.content with
  | .markup root => some root
  | .data bytes => Markup.ofBytes? bytes

end Part

structure Package where
  relations : Relations
  parts : List Part
  main : Part

namespace Package

def part? (package : Package) (name : String) : Option Part :=
  package.parts.find? (·.name = name)

end Package

abbrev Files := Archive.Files

namespace Files

/-- The file of a part, whose name starts with a slash. -/
def get? (files : Files) (partName : String) : Option ByteArray :=
  (files.find? fun file => "/" ++ file.1 = partName).map (·.2)

/-- The folder of a part. -/
def folder (partName : String) : Path := (Path.ofText partName).parent

/-- The name of the part that a target leads to from a folder. -/
def resolve (folder : Path) (target : String) : String :=
  let path := folder.join (.ofText target)
  let names := path.names.foldl (fun names name => if name = ".." then names.dropLast else names ++ [name]) []
  Path.toText ⟨path.root, names⟩

/-- The name of the file with the relations of a part; those of the package belong to its root. -/
def relationsName (partName : String) : String :=
  let path := Path.ofText partName
  Path.toText ⟨"/", path.parent.names ++ ["_rels", path.name ++ ".rels"]⟩

def relation (folder : Path) (element : Element) : Relation :=
  let get (name : String) : String := (element.attribute? (bare name)).getD ""
  let target := get "Target"
  ⟨get "Id", get "Type",
    if get "TargetMode" = "External" then .address target else .part (resolve folder target)⟩

/-- The relations from a part; there are none without a file for them. -/
def relations? (files : Files) (partName : String) : Option Relations :=
  match files.get? (relationsName partName) with
  | none => some []
  | some bytes =>
    (Markup.ofBytes? bytes).map fun root =>
      (root.named (relationList "Relationship")).map (relation (folder partName))

structure ContentTypes where
  /-- By the extension of a file. -/
  defaults : List (String × String)
  /-- By the name of a part. -/
  overrides : List (String × String)

def lower (text : String) : String := text.map Char.toLower

def ContentTypes.ofElement (root : Element) : ContentTypes :=
  let pairs (name key : String) : List (String × String) :=
    (root.named (typeList name)).map fun e =>
      (lower ((e.attribute? (bare key)).getD ""), (e.attribute? (bare "ContentType")).getD "")
  ⟨pairs "Default" "Extension", pairs "Override" "PartName"⟩

/-- The type of a part: its own, or else that of its extension. The last entry counts. -/
def ContentTypes.get? (types : ContentTypes) (partName : String) : Option String :=
  let last (entries : List (String × String)) (key : String) : Option String :=
    (entries.reverse.find? (·.1 = lower key)).map (·.2)
  last types.overrides partName <|>
    last types.defaults (String.ofList ((Path.ofText partName).suffix.toList.drop 1))

def contentTypes? (files : Files) : Option ContentTypes :=
  (files.get? "/[Content_Types].xml" >>= Markup.ofBytes?).map .ofElement

/-- A part, if its file is there, has a type and is well formed where its type asks for that. -/
def part? (files : Files) (types : ContentTypes) (name : String) : Option Part := do
  let bytes ← files.get? name
  let contentType ← types.get? name
  let relations ← files.relations? name
  let content ← if contentType ∈ markupTypes then (Markup.ofBytes? bytes).map .markup
    else some (.data bytes)
  some ⟨name, contentType, content, relations⟩

def targets (relations : Relations) : List String := relations.filterMap Relation.part?

/-- The parts that relations lead to from the given names on, in a number of rounds. -/
def reach? (files : Files) (types : ContentTypes) : Nat → List String → Option (List Part)
  | 0, _ => some []
  | rounds + 1, names => do
    let parts ← names.mapM (files.part? types)
    let found := (names ++ parts.flatMap fun part => targets part.relations).eraseDups
    if found.length = names.length then some parts else files.reach? types rounds found

/-- The package whose files are given, with a main part that is a document. -/
def open? (files : Files) : Option Package := do
  let types ← files.contentTypes?
  let relations ← files.relations? "/"
  let parts ← files.reach? types (files.length + 2) (targets relations).eraseDups
  match relations.ofKind (documentRelation "officeDocument") with
  | [relation] => do
    let name ← relation.part?
    let main ← parts.find? (·.name = name)
    if main.contentType = mainType then some ⟨relations, parts, main⟩ else none
  | _ => none

end Files

end Interchange.Word
