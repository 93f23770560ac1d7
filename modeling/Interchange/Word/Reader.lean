import Interchange.Document.Builders
import Interchange.Transfer
import Interchange.Word.Body
import Interchange.Word.Composition
import Interchange.Word.Inline
import Interchange.Word.Library.Values

/-!
# Reading packages

The document of a package: its body, the footnotes at the end, the core properties and, where the
options ask for it, the layout of its pages. The footnotes that hold text are numbered from one, and
their bodies are read as plain text. What headers and footers say is not carried over. Damage in any
part that is looked at ends the reading.
-/
namespace Interchange.Word

open Markup (Element)

/-- A footnote that holds text: its number in the package and its paragraphs. -/
structure Footnote where
  number : Int
  paragraphs : List String

namespace Footnote

def separators : List String := ["separator", "continuationSeparator"]

def paragraphText (paragraph : Element) : String :=
  String.join ((paragraph.deep (w "t")).map Element.leadingText)

/-- A footnote that is no separator, has a number and is not empty. -/
def ofElement? (element : Element) : Option Footnote := do
  let _ ← if (element.attribute? (w "type")).any (separators.contains ·) then none else some ()
  let number ← element.attribute? (w "id")
  let number ← Number.readInt? number.toList
  let paragraphs := ((element.deep (w "p")).map paragraphText).filter (· ≠ "")
  if paragraphs.isEmpty then none else some ⟨number, paragraphs⟩

/-- The root of the footnotes of a package, if it has a part for them; none when it is damaged. -/
def root? (package : Package) : Option (Option Element) :=
  let parts := (package.main.relations.ofKind (documentRelation "footnotes")).filterMap Relation.part?
  match parts with
  | [] => some none
  | name :: _ => do
    let part ← package.part? name
    let root ← part.root?
    some (some root)

def ofPackage? (package : Package) : Option (List Footnote) :=
  (root? package).map fun root =>
    match root with
    | none => []
    | some root => (root.named (w "footnote")).filterMap ofElement?

/-- Footnotes with their labels. -/
def labelled (footnotes : List Footnote) : List (String × Footnote) :=
  footnotes.mapIdx fun i footnote => (Number.natText (i + 1), footnote)

def labels (footnotes : List Footnote) : List (Int × String) :=
  (labelled footnotes).map fun (label, footnote) => (footnote.number, label)

def definitions (footnotes : List Footnote) : List Node :=
  (labelled footnotes).map fun (label, footnote) =>
    .footnoteDef label (footnote.paragraphs.map fun text => .paragraph [.text text])

def notices (footnotes : List Footnote) : List Notice :=
  if footnotes.isEmpty then []
  else [.always (.simplified "footnote formatting" "Footnote bodies were read as plain text" .info)]

end Footnote

namespace Section

/-- The sections of a document: one may end with a paragraph, the last with the body. -/
def ofDocument (root : Element) : List Element :=
  (root.named (w "body")).flatMap fun body =>
    body.children.flatMap fun e =>
      if e.name = w "sectPr" then [e]
      else if e.name = w "p" then (e.named (w "pPr")).flatMap (·.named (w "sectPr"))
      else []

def paragraphText (paragraph : Element) : String :=
  String.join (paragraph.children.map fun e =>
    if e.name = w "r" then Inline.runText e
    else if e.name = w "hyperlink" then String.join ((e.named (w "r")).map Inline.runText)
    else "")

def hasText (root : Element) : Bool :=
  (root.named (w "p")).any fun p => !Text.isBlankLine (paragraphText p).toList

/-- Whether a section has a header, or a footer, with text in it. -/
def shows? (package : Package) (reference : String) (sectionElement : Element) : Option Bool :=
  match (sectionElement.named (w reference)).find? fun e => e.attribute? (w "type") = some "default" with
  | none => some false
  | some e => do
    let id ← e.attribute? (r "id")
    let name ← package.main.relations.partName? id
    let part ← package.part? name
    let root ← part.root?
    some (hasText root)

def showsAny? (package : Package) : List Element → Option Bool
  | [] => some false
  | e :: others => do
    if ← shows? package "headerReference" e then some true
    else if ← shows? package "footerReference" e then some true
    else showsAny? package others

/-- The element and the attribute that a measure is kept in. -/
def place : PageMeasure → String × String
  | .pageWidth => ("pgSz", "w")
  | .pageHeight => ("pgSz", "h")
  | .leftMargin => ("pgMar", "left")
  | .rightMargin => ("pgMar", "right")
  | .topMargin => ("pgMar", "top")
  | .bottomMargin => ("pgMar", "bottom")

/-- A measure of a section, if it is given. -/
def measure? (sectionElement : Element) (measure : PageMeasure) : Option (Option Value) :=
  match (sectionElement.first? (w (place measure).1)).bind (·.attribute? (w (place measure).2)) with
  | none => some none
  | some text => do
    let length ← if measure.isSigned then signedLength? text else length? text
    let value ← Value.ofInt? length
    some (some value)

def layout? (sectionElement : Element) : Option Bag :=
  PageMeasure.all.foldlM (fun bag measure =>
    (measure? sectionElement measure).map fun value =>
      match value with
      | some value => bag.insert measure.name value
      | none => bag) .empty

/-- The layout of the first section. -/
def firstLayout? : List Element → Option Bag
  | [] => some .empty
  | e :: _ => layout? e

end Section

namespace Package

/-- The one part that relations of a kind lead to; there may be none. -/
def only? (package : Package) (relations : Relations) (kind : String) : Option (Option Element) :=
  match relations.ofKind kind with
  | [] => some none
  | [relation] => do
    let name ← relation.part?
    let part ← package.part? name
    let root ← part.root?
    some (some root)
  | _ => none

def styles? (package : Package) : Option Styles := do
  match ← package.only? package.main.relations (documentRelation "styles") with
  | none => some .standard
  | some root => Styles.ofElement? root

def coreProperties? (package : Package) : Option CoreProperties := do
  match ← package.only? package.relations coreRelation with
  | none => some .ofAbsence
  | some root => some (.ofElement root)

def source (package : Package) (footnotes : List Footnote) (embeds : Bool) : Source :=
  ⟨package, package.styles?, Footnote.labels footnotes, embeds⟩

end Package

/-- What of a package is not carried over at all. -/
def passOver (package : Package) (sections : List Element) : Finding Unit := do
  if !(package.main.relations.ofKind (documentRelation "comments")).isEmpty then
    Finding.lost "comments" "Document comments are not carried over"
  if ← Finding.need (Section.showsAny? package sections) then
    Finding.lost "headers and footers" "Page headers and footers are not carried over"

/-- The blocks of a package, footnotes last. -/
def blocks (package : Package) (root : Element) (footnotes : List Footnote) (embeds : Bool) :
    Finding (List Node) := do
  (Footnote.notices footnotes).forM Finding.note
  passOver package (Section.ofDocument root)
  let body ← Finding.need (root.first? (w "body"))
  let found ← Body.blocks (package.source footnotes embeds) body
  pure (found ++ Footnote.definitions footnotes)

def document? (package : Package) (options : ReadOptions) : Option (Outcome Document) := do
  let root ← package.main.root?
  let footnotes ← Footnote.ofPackage? package
  let (found, findings) ← (blocks package root footnotes options.embeds).run .none
  let core ← package.coreProperties?
  let layout ← Section.firstLayout? (Section.ofDocument root)
  some ⟨⟨.document found, core.toBag, Reading.sourceInfo options formatName layout,
    findings.resources⟩, Notice.settle findings.notices⟩

def read (package : Package) (options : ReadOptions) : ReadResult :=
  match document? package options with
  | some outcome => .ok outcome
  | none => .error (.malformed .damagedPackage)

/-- Reads a package that is still in an archive. -/
def readArchive (data : ByteArray) (options : ReadOptions) : ReadResult :=
  match (Archive.unpack? data).bind Files.open? with
  | some package => read package options
  | none => .error (.malformed .unreadablePackage)

end Interchange.Word
