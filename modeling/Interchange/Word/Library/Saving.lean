import Interchange.Archive.Basic
import Interchange.Markup.Tree
import Interchange.Word.Composition
import Interchange.Word.Library.Content
import Interchange.Word.Package

/-!
# The package library: saving

The parts that the library lays a composition out in, and the files of an archive that the parts
become. Links and pictures are numbered in the order in which they first come up, and equal ones
share a number. The styles are the standard ones, so that no part is needed for them; a package that
is packed has one, so that every program shows them alike.
-/
namespace Interchange.Word

open Markup (Attribute Element)

mutual

/-- The paragraphs of a block, in order. -/
def Block.paragraphs : Block → List Paragraph
  | .paragraph p => [p]
  | .table _ rows => paragraphsOfRows rows

def paragraphsOfRows : List (List (List Block)) → List Paragraph
  | [] => []
  | row :: rows => paragraphsOfCells row ++ paragraphsOfRows rows

def paragraphsOfCells : List (List Block) → List Paragraph
  | [] => []
  | cell :: cells => paragraphsOfBlocks cell ++ paragraphsOfCells cells

def paragraphsOfBlocks : List Block → List Paragraph
  | [] => []
  | block :: blocks => block.paragraphs ++ paragraphsOfBlocks blocks

end

namespace Composition

def items (composition : Composition) : List RunItem :=
  (paragraphsOfBlocks composition.blocks).flatMap (·.items)

def url? : RunItem → Option String
  | .link url _ => some url
  | .run _ => none

/-- The addresses of links, each once. -/
def urls (composition : Composition) : List String :=
  (composition.items.filterMap url?).eraseDups

/-- The pictures, those of the same data once. -/
def pictures (composition : Composition) : List Picture :=
  (composition.items.flatMap fun item => item.runs.filterMap Run.picture?).foldl
    (fun found picture =>
      if found.any (·.data.data = picture.data.data) then found else found ++ [picture]) []

end Composition

/-- The links and pictures that relations are numbered by. -/
structure Index where
  urls : List String
  pictures : List Picture

namespace Index

def linkId (number : Nat) : String := "rIdLink" ++ Number.natText number

def pictureId (number : Nat) : String := "rIdImage" ++ Number.natText number

def link (index : Index) (url : String) : String := linkId (index.urls.idxOf url + 1)

def picture (index : Index) (picture : Picture) : String :=
  pictureId (index.pictures.findIdx (·.data.data = picture.data.data) + 1)

def pictureName (number : Nat) (picture : Picture) : String :=
  "/word/media/image" ++ Number.natText number ++ "." ++ picture.format.extension

end Index

def valued (name value : String) : Element := .leaf (w name) [⟨w "val", value⟩]

def switched (name : String) (on : Bool) : List Element := if on then [.leaf (w name)] else []

def Script.code : Script → String
  | .superscript => "superscript"
  | .subscript => "subscript"

/-- The face of code. -/
def codeFace : String := "Courier New"

def RunFormat.elements (format : RunFormat) : List Element :=
  (if format.code then [.leaf (w "rFonts") [⟨w "ascii", codeFace⟩, ⟨w "hAnsi", codeFace⟩]] else []) ++
    switched "b" format.style.bold ++ switched "i" format.style.italic ++
    switched "smallCaps" format.smallCaps ++ switched "strike" format.style.strikethrough ++
    (if format.style.underline then [valued "u" "single"] else []) ++
    (match format.script? with
      | some script => [valued "vertAlign" script.code]
      | none => [])

def pictureElement (index : Index) (picture : Picture) : Element :=
  let description : List Attribute := match picture.description with
    | some text => [⟨bare "descr", text⟩]
    | none => []
  .branch (w "drawing") [.branch (placing "inline") [
    .leaf (placing "docPr") description,
    .branch (drawing "graphic") [
      .branch (drawing "graphicData") [.leaf (drawing "blip") [⟨r "embed", index.picture picture⟩]]]]]

def RunPart.element (index : Index) : RunPart → Element
  | .text content => .ofText (w "t") (String.ofList content)
  | .tab => .leaf (w "tab")
  | .lineBreak => .leaf (w "br")
  | .pageBreak => .leaf (w "br") [⟨w "type", "page"⟩]
  | .footnote number => .leaf (w "footnoteReference") [⟨w "id", Number.natText number⟩]
  | .picture shown => pictureElement index shown

def Run.element (index : Index) (run : Run) : Element :=
  .branch (w "r") (.branch (w "rPr") run.format.elements :: run.parts.map (·.element index))

def RunItem.element (index : Index) : RunItem → Element
  | .run single => single.element index
  | .link url several =>
    ⟨w "hyperlink", [⟨r "id", index.link url⟩], several.map fun run => .element (run.element index)⟩

def Paragraph.element (index : Index) (paragraph : Paragraph) : Element :=
  let style := match paragraph.style with
    | some name => [valued "pStyle" (Style.idOfName name)]
    | none => []
  let alignment := match paragraph.alignment with
    | some alignment => [valued "jc" alignment.code]
    | none => []
  .branch (w "p") (.branch (w "pPr") (style ++ alignment) :: paragraph.items.map (·.element index))

mutual

def Block.element (index : Index) : Block → Element
  | .paragraph p => p.element index
  | .table style rows =>
    let style := match style with
      | some id => [valued "tblStyle" id]
      | none => []
    .branch (w "tbl") (.branch (w "tblPr") style :: rowElements index rows)

def rowElements (index : Index) : List (List (List Block)) → List Element
  | [] => []
  | row :: rows => .branch (w "tr") (cellElements index row) :: rowElements index rows

def cellElements (index : Index) : List (List Block) → List Element
  | [] => []
  | cell :: cells => .branch (w "tc") (blockElements index cell) :: cellElements index cells

def blockElements (index : Index) : List Block → List Element
  | [] => []
  | block :: blocks => block.element index :: blockElements index blocks

end

def PageLayout.element (layout : PageLayout) : Element :=
  let twips (name : String) (measure : PageMeasure) : Attribute :=
    ⟨w name, Number.intText (layout measure / twip)⟩
  .branch (w "sectPr") [
    .leaf (w "pgSz") [twips "w" .pageWidth, twips "h" .pageHeight],
    .leaf (w "pgMar") [twips "left" .leftMargin, twips "right" .rightMargin,
      twips "top" .topMargin, twips "bottom" .bottomMargin]]

def footnoteElement (number : Nat) (text : FootnoteText) : Element :=
  ⟨w "footnote", [⟨w "id", Number.natText number⟩], text.map fun content =>
    .element (.branch (w "p") [.branch (w "r") [.ofText (w "t") content]])⟩

def footnotesElement (footnotes : List FootnoteText) : Element :=
  let separator (kind id : String) : Element :=
    ⟨w "footnote", [⟨w "type", kind⟩, ⟨w "id", id⟩],
      [.element (.branch (w "p") [.branch (w "r") [.leaf (w kind)]])]⟩
  .branch (w "footnotes") (separator "separator" "-1" :: separator "continuationSeparator" "0" ::
    footnotes.mapIdx fun i text => footnoteElement (i + 1) text)

namespace Composition

def index (composition : Composition) : Index := ⟨composition.urls, composition.pictures⟩

def body (composition : Composition) : Element :=
  .branch (w "body") (blockElements composition.index composition.blocks ++ [composition.layout.element])

def documentName : String := "/word/document.xml"

def footnotesName : String := "/word/footnotes.xml"

def coreName : String := "/docProps/core.xml"

def linkRelations (composition : Composition) : Relations :=
  composition.urls.mapIdx fun i url =>
    ⟨Index.linkId (i + 1), documentRelation "hyperlink", .address url⟩

def pictureRelations (composition : Composition) : Relations :=
  composition.pictures.mapIdx fun i picture =>
    ⟨Index.pictureId (i + 1), documentRelation "image", .part (Index.pictureName (i + 1) picture)⟩

def footnoteRelations (composition : Composition) : Relations :=
  if composition.footnotes.isEmpty then []
  else [⟨"rIdFootnotes", documentRelation "footnotes", .part footnotesName⟩]

def main (composition : Composition) : Part :=
  ⟨documentName, mainType, .markup (.branch (w "document") [composition.body]),
    composition.linkRelations ++ composition.pictureRelations ++ composition.footnoteRelations⟩

def pictureParts (composition : Composition) : List Part :=
  composition.pictures.mapIdx fun i picture =>
    ⟨Index.pictureName (i + 1) picture, picture.format.mimeType, .data picture.data, []⟩

def footnoteParts (composition : Composition) : List Part :=
  if composition.footnotes.isEmpty then []
  else [⟨footnotesName, wordType "footnotes", .markup (footnotesElement composition.footnotes), []⟩]

def corePart (composition : Composition) : Part :=
  ⟨coreName, coreType, .markup composition.core.toElement, []⟩

def package (composition : Composition) : Package :=
  ⟨[⟨"rIdDocument", documentRelation "officeDocument", .part documentName⟩,
      ⟨"rIdCore", coreRelation, .part coreName⟩],
    composition.main :: composition.corePart :: composition.footnoteParts ++ composition.pictureParts,
    composition.main⟩

end Composition

def StyleLook.elements (look : StyleLook) : List Element :=
  let number (n : Nat) : String := Number.natText n
  let spacing : List Attribute :=
    (look.after.toList.map fun n => ⟨w "after", number n⟩) ++
      look.line.toList.map fun n => ⟨w "line", number n⟩
  (if spacing.isEmpty then [] else [.branch (w "pPr") [.leaf (w "spacing") spacing]]) ++
    [.branch (w "rPr") (switched "b" look.bold ++
      (look.color.toList.map fun color => valued "color" color) ++
      look.size.toList.map fun n => valued "sz" (number n))]

def Style.element (looks : List (String × StyleLook)) (style : Style) : Element :=
  let kind := (style.kind.toList.map fun kind => (⟨w "type", kind.text⟩ : Attribute))
  let isDefault : List Attribute := if style.isDefault then [⟨w "default", "1"⟩] else []
  let look := match looks.find? (Style.keptName ·.1 = style.name) with
    | some (_, look) => look.elements
    | none => []
  ⟨w "style", kind ++ isDefault ++ [⟨w "styleId", style.id⟩],
    (valued "name" style.name :: look).map .element⟩

def stylesName : String := "/word/styles.xml"

def stylesPart (looks : List (String × StyleLook)) : Part :=
  ⟨stylesName, wordType "styles",
    .markup (.branch (w "styles") (Styles.standard.map (Style.element looks))), []⟩

def Relation.element (relation : Relation) : Element :=
  let target : List Attribute := match relation.target with
    | .part name => [⟨bare "Target", name⟩]
    | .address text => [⟨bare "Target", text⟩, ⟨bare "TargetMode", "External"⟩]
  .leaf (relationList "Relationship") (⟨bare "Id", relation.id⟩ :: ⟨bare "Type", relation.kind⟩ :: target)

/-- The name of a file without the slash before the name of its part. -/
def memberName (partName : String) : String := String.ofList (partName.toList.drop 1)

def relationFiles (partName : String) (relations : Relations) : Archive.Files :=
  if relations.isEmpty then []
  else [(memberName (Files.relationsName partName),
    (Element.branch (relationList "Relationships") (relations.map Relation.element)).toBytes)]

def typesElement (parts : List Part) : Element :=
  let type (name : String) (key : Attribute) (contentType : String) : Element :=
    .leaf (typeList name) [key, ⟨bare "ContentType", contentType⟩]
  .branch (typeList "Types")
    (type "Default" ⟨bare "Extension", "rels"⟩
        "application/vnd.openxmlformats-package.relationships+xml" ::
      parts.map fun part => type "Override" ⟨bare "PartName", part.name⟩ part.contentType)

def Part.file (part : Part) : String × ByteArray :=
  (memberName part.name, match part.content with
    | .markup root => root.toBytes
    | .data bytes => bytes)

def Package.files (package : Package) : Archive.Files :=
  ("[Content_Types].xml", (typesElement package.parts).toBytes) ::
    relationFiles "/" package.relations ++
    package.parts.flatMap fun part => part.file :: relationFiles part.name part.relations

namespace Composition

/-- The package with a part for the styles, so that every program shows them alike. -/
def styledPackage (composition : Composition) : Package :=
  let package := composition.package
  let relation : Relation := ⟨"rIdStyles", documentRelation "styles", .part stylesName⟩
  let main := { package.main with relations := relation :: package.main.relations }
  { package with
    main
    parts := main :: stylesPart composition.looks :: package.parts.filter (·.name ≠ main.name) }

/-- The bytes of the package. -/
def toBytes (composition : Composition) : ByteArray := Archive.pack composition.styledPackage.files

end Composition

end Interchange.Word
