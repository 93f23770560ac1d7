import Interchange.Word.Compose.Block
import Interchange.Word.Library.Content

/-!
# Writing packages

A document becomes a composition: the page layout that its source asks for, the blocks, the
footnotes by number, and the core properties cut to the length that they may have.
-/
namespace Interchange.Word

def configureName : String := "configure_styles"

def tableStyleName : String := "table_style"

def standardTableStyle : String := "Table Grid"

def writeSettings : Settings :=
  .ofList [(configureName, .bool true), (tableStyleName, .text standardTableStyle)]

/-- The style of tables that a setting names; a name that no style has leaves the default one. -/
def tableStyle (setting : Json) : Except OptionFault (Option String) :=
  match setting with
  | .text name =>
    match Styles.standard.named? name with
    | none => .ok none
    | some style =>
      if style.kind ≠ some .table then
        .error (.styleType ((style.kind.map StyleKind.shown).getD "") StyleKind.table.shown)
      else .ok (if style.isDefault then none else some style.id)
  | .list items => .error (.unhashable (Json.list items).kindName)
  | .object members => .error (.unhashable (Json.object members).kindName)
  | _ => .ok none

def footnoteNodes (doc : Document) : List Node :=
  doc.content.walk.filter (·.kind = .footnoteDef)

/-- Footnotes by label; one without a label has its number for one. -/
def footnoteNumbers (nodes : List Node) : List (String × Nat) :=
  nodes.mapIdx fun i node =>
    ((Bag.filled? node.props Key.label).getD (Number.natText (i + 1)), i + 1)

/-- The texts of the parts of a footnote, or its own text when it has no parts. -/
def footnoteTexts (node : Node) : List String :=
  if node.children.isEmpty then [node.textContent] else node.children.map Node.textContent

def formattingNotice : Notice :=
  .once (.feature "footnote formatting")
    (.simplified "footnote formatting" "Footnote bodies were written as plain text")

/-- Whether the body of a footnote is more than paragraphs and text. -/
def isFormatted (node : Node) : Bool :=
  node.children.any fun child => child.kind ≠ .paragraph ∧ child.kind ≠ .text

def composeFootnotes (nodes : List Node) : Noted (List FootnoteText) := do
  let footnotes ← nodes.mapM fun node => (footnoteTexts node).mapM storable
  Noted.noteWhen (nodes.any isFormatted) formattingNotice
  pure footnotes

/-- The greatest number of characters of a core property. -/
def coreLimit : Nat := 255

def cutNotice (field : CoreField) : Notice :=
  .always (.simplified field.name
    ("Document " ++ field.name ++ " was cut to " ++ Number.natText coreLimit ++ " characters"))

def composeField (metadata : Bag) (properties : CoreProperties) (field : CoreField) :
    Noted CoreProperties :=
  match Bag.filled? metadata field.name with
  | none => pure properties
  | some text => do
    let text ← storable text
    Noted.noteWhen (coreLimit < text.toList.length) (cutNotice field)
    pure (properties.set field (String.ofList (text.toList.take coreLimit)))

def composeCore (metadata : Bag) : Noted CoreProperties :=
  CoreField.all.foldlM (composeField metadata) .ofTemplate

def composeLayout (doc : Document) (options : WriteOptions) : Noted PageLayout :=
  match options.sourceMetadata? doc formatName with
  | some source => PageLayout.ofSource source
  | none => pure .standard

def composeDocument (doc : Document) (options : WriteOptions) (configure : Bool)
    (style : Option String) : Noted Composition := do
  let layout ← composeLayout doc options
  let notes := footnoteNodes doc
  let blocks ← composeBlock ⟨doc, footnoteNumbers notes, style⟩ .outermost doc.content
  let footnotes ← composeFootnotes notes
  let core ← composeCore doc.metadata
  pure ⟨blocks, footnotes, core, layout,
    if configure then StyleLook.configured else StyleLook.standard⟩

/-- A table style that cannot be used matters only where there is a table. -/
def write (doc : Document) (options : WriteOptions) :
    Except WriteError (Outcome Composition) :=
  let settings := Settings.merge writeSettings options.extra
  let configure := (settings.getOr configureName (.bool true)).isTruthy
  let style := tableStyle (settings.getOr tableStyleName (.text standardTableStyle))
  let composed := composeDocument doc options configure (style.toOption.getD none)
  match style with
  | .ok _ => .ok composed.outcome
  | .error fault =>
    if composed.value.blocks.any Block.isTable then .error (.options fault) else .ok composed.outcome

end Interchange.Word
