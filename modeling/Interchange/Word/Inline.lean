import Interchange.Document.Basic
import Interchange.Notice
import Interchange.Text.Lines
import Interchange.Word.Library.Content
import Interchange.Word.Package

/-!
# Runs and links

The inline content of a paragraph. The parts of a run come out in a fixed order: references to
footnotes, then pictures, then the text. While a package is read, notices are made and pictures are
added to the resources of the document. A step that meets damage has no result.
-/
namespace Interchange.Word

open Markup (Element)

structure Findings where
  notices : List Notice
  resources : ResourceTable
  ids : IdSource

namespace Findings

def none : Findings := ⟨[], .empty, .standard⟩

end Findings

abbrev Finding (α : Type) := StateT Findings Option α

namespace Finding

variable {α : Type}

def damaged : Finding α := fun _ => Option.none

/-- What has to be readable. -/
def need (value : Option α) : Finding α := fun findings => value.map (·, findings)

def note (notice : Notice) : Finding Unit := fun findings =>
  some ((), { findings with notices := findings.notices ++ [notice] })

/-- Adds a resource under a new identifier. -/
def embed (resource : Resource) : Finding ResourceId := fun findings =>
  let (id, ids) := findings.ids.mint
  some (id, { findings with resources := findings.resources.insert id resource, ids })

def lost (feature message : String) : Finding Unit :=
  note (.once (.feature feature) (.featureLost feature message))

def simplified (feature message : String) : Finding Unit :=
  note (.once (.feature feature) (.simplified feature message))

end Finding

/-- What a reader knows while it reads: the package, its styles, and the labels of the footnotes
by their numbers in the package. -/
structure Source where
  package : Package
  /-- None when the styles are damaged. -/
  styles : Option Styles
  labels : List (Int × String)
  embeds : Bool

namespace Source

def relations (source : Source) : Relations := source.package.main.relations

/-- The label of the last footnote with a number. -/
def label? (source : Source) (number : Int) : Option String :=
  (source.labels.reverse.find? (·.1 = number)).map (·.2)

/-- The part that a relation of the text leads to. -/
def related? (source : Source) (id : String) : Option Part :=
  source.relations.partName? id >>= source.package.part?

end Source

namespace Inline

def footnoteRef? (source : Source) (reference : Element) : Option Node := do
  let number ← reference.attribute? (w "id")
  let number ← Number.readInt? number.toList
  let label ← source.label? number
  some (.footnoteRef label)

/-- The description of the first picture in a run that has one. -/
def description? (run : Element) : Option String :=
  (run.deep (placing "docPr")).findSome? (·.attribute? (bare "descr"))

/-- What is noted of a picture whose data is not in the package. -/
def unresolved (id : Option String) : Notice :=
  .always ⟨.minor, .resourceFailed (id.getD "None"), "Image relationship could not be resolved"⟩

def picturePart? (source : Source) (id : Option String) : Option Part :=
  match id with
  | some id => if id = "" then none else source.related? id
  | none => none

def picture (source : Source) (run blip : Element) : Finding Node := do
  let alt := description? run
  let id := blip.attribute? (r "embed")
  match picturePart? source id with
  | none => do
    Finding.note (unresolved id)
    pure (.image none (some (alt.getD "")) none)
  | some part =>
    if source.embeds then do
      let id ← Finding.embed ((Resource.ofData part.contentType part.bytes).withName part.fileName)
      pure (.image none alt (some id.text))
    else do
      Finding.lost "embedded images" "Images were not embedded (embedding disabled)"
      pure (.image (some part.fileName) alt none)

/-- The text that an element directly inside a run stands for. -/
def piece (element : Element) : String :=
  if element.name = w "t" then element.leadingText
  else if element.name = w "tab" ∨ element.name = w "ptab" then "\t"
  else if element.name = w "cr" then "\n"
  else if element.name = w "noBreakHyphen" then "-"
  else if element.name = w "br" then
    (if (element.attribute? (w "type")).getD "textWrapping" = "textWrapping" then "\n" else "")
  else ""

def runText (run : Element) : String := String.join (run.children.map piece)

/-- The lines of the text of a run, with breaks between them; an empty line leaves no text. -/
def lineNodes (run : Element) : List (List Char) → Option (List Node)
  | [] => some []
  | line :: lines => do
    let own ← if line.isEmpty then some [] else (Font.styled? run (String.ofList line)).map ([·])
    let others ← lineNodes run lines
    some (if lines.isEmpty then own else own ++ .lineBreak :: others)

def run (source : Source) (run : Element) : Finding (List Node) := do
  let references := (run.named (w "footnoteReference")).filterMap (footnoteRef? source)
  let pictures ← (run.deep (drawing "blip")).mapM (picture source run)
  if ← Finding.need (Font.isOwn? run) then
    Finding.lost "fonts and colors" "Font faces, sizes and colors are not carried over"
  let lines ← Finding.need (lineNodes run (Text.splitAt '\n' (runText run).toList))
  pure (references ++ pictures ++ lines)

def runs (source : Source) (elements : List Element) : Finding (List Node) := do
  let nodes ← elements.mapM (run source)
  pure nodes.flatten

/-- The way from the folder of a part to another part. -/
def relativeName (base target : Path) : String :=
  let common := ((base.names.zip target.names).takeWhile fun pair => pair.1 = pair.2).length
  Path.toText ⟨"", List.replicate (base.names.length - common) ".." ++ target.names.drop common⟩

/-- The address that a relation of the text leads to. -/
def address (source : Source) (relation : Relation) : String :=
  match relation.target with
  | .address text => text
  | .part name => relativeName (Files.folder source.package.main.name) (.ofText name)

/-- The address of a link; without an address there is no place in it either. -/
def url (source : Source) (link : Element) : Finding String :=
  match link.attribute? (r "id") with
  | none => pure ""
  | some id =>
    if id = "" then pure ""
    else match source.relations.get? id with
      | none => do
        Finding.lost "hyperlink" "Hyperlink targets that could not be resolved were dropped"
        pure ""
      | some relation =>
        let address := address source relation
        let place := (link.attribute? (w "anchor")).getD ""
        pure (if address = "" ∨ place = "" then address else address ++ "#" ++ place)

/-- A link around its runs, or the runs alone when it leads nowhere. -/
def link (source : Source) (element : Element) : Finding (List Node) := do
  let children ← runs source (element.named (w "r"))
  let url ← url source element
  pure (if url = "" then children else [.link url children])

def item (source : Source) (element : Element) : Finding (List Node) :=
  if element.name = w "r" then run source element
  else if element.name = w "hyperlink" then link source element
  else pure []

/-- The inline content of a paragraph: the runs and links directly in it. -/
def ofParagraph (source : Source) (paragraph : Element) : Finding (List Node) := do
  let nodes ← paragraph.children.mapM (item source)
  pure nodes.flatten

end Inline

end Interchange.Word
