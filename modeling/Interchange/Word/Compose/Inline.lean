import Interchange.Markup.Token
import Interchange.Notice
import Interchange.Transfer
import Interchange.Word.Composition

/-!
# Composing inline content

Nodes become runs. Text inside a link becomes part of the link; pictures, references to footnotes
and further links cannot stand in one and follow it. A package holds only characters that markup
allows: all others are left out of every text, which is noted once.
-/
namespace Interchange.Word

def allowedText (text : String) : String := String.ofList (text.toList.filter Markup.isAllowed)

def removedNotice : Notice :=
  .once (.feature "control characters")
    (.simplified "control characters" "Characters not allowed in Word XML were removed")

def isStorable (text : String) : Bool := text.toList.all Markup.isAllowed

/-- The part of a text that can be stored. -/
def storable (text : String) : Noted String := do
  Noted.noteWhen (!isStorable text) removedNotice
  pure (allowedText text)

def composeRun (format : RunFormat) (text : String) : Noted Run := do
  let text ← storable text
  pure (.ofText format text)

@[simp] theorem storable_value (text : String) : (storable text).value = allowedText text := rfl

@[simp] theorem composeRun_value (format : RunFormat) (text : String) :
    (composeRun format text).value = .ofText format (allowedText text) := rfl

/-- What is stored holds allowed characters only. -/
theorem isAllowed_of_mem_allowedText {text : String} {c : Char} (h : c ∈ (allowedText text).toList) :
    Markup.isAllowed c := by
  simp only [allowedText, String.toList_ofList, List.mem_filter] at h
  exact h.2

inductive InlineRole where
  | text
  | code
  | mark (mark : Mark)
  | span
  | quoted
  | link
  | image
  | lineBreak
  | softBreak
  | footnoteRef
deriving DecidableEq

namespace InlineRole

def assignments : List (Kind × InlineRole) := [
  (.text, .text), (.code, .code),
  (.strong, .mark (.style .bold)), (.emphasis, .mark (.style .italic)),
  (.underline, .mark (.style .underline)), (.strikeout, .mark (.style .strikethrough)),
  (.superscript, .mark (.script .superscript)), (.subscript, .mark (.script .subscript)),
  (.smallCaps, .mark .smallCaps),
  (.span, .span), (.quoted, .quoted), (.link, .link), (.image, .image),
  (.lineBreak, .lineBreak), (.softBreak, .softBreak), (.footnoteRef, .footnoteRef)]

def ofKind? (kind : Kind) : Option InlineRole := (assignments.find? (·.1 = kind)).map (·.2)

end InlineRole

def isInline (node : Node) : Bool := (InlineRole.ofKind? node.kind).isSome

/-- What does not change while a document is composed. -/
structure Setting where
  doc : Document
  /-- The numbers of the footnotes by label. -/
  numbers : List (String × Nat)
  tableStyle : Option String

namespace Setting

/-- The number of the last footnote with a label. -/
def number? (setting : Setting) (label : String) : Option Nat :=
  (setting.numbers.reverse.find? (·.1 = label)).map (·.2)

end Setting

/-- A piece of a line: a run that goes where the text goes, or an item that stands for itself. -/
inductive Placed where
  | held (run : Run)
  | loose (item : RunItem)

namespace Placed

def item : Placed → RunItem
  | .held run => .run run
  | .loose item => item

def held? : Placed → Option Run
  | .held run => some run
  | .loose _ => none

def loose? : Placed → Option RunItem
  | .held _ => none
  | .loose item => some item

end Placed

/-- The pieces of a link around others. -/
def linkAround (url : String) (pieces : List Placed) : List Placed :=
  .loose (.link url (pieces.filterMap Placed.held?)) ::
    (pieces.filterMap Placed.loose?).map .loose

/-- The text that stands for a picture. -/
def pictureText (alt : String) : String :=
  if alt = "" then "[Image]" else "[Image: " ++ alt ++ "]"

def externalNotice : Notice :=
  .once (.feature "external images") (.featureLost "external images"
    "Images without embedded data were written as their alt text")

def failedNotice (name message : String) : Notice := .always ⟨.minor, .resourceFailed name, message⟩

def looseRun (run : Run) : List Placed := [.loose (.run run)]

def composeDescription (alt : String) : Noted (Option String) :=
  if alt = "" then pure none else some <$> storable alt

/-- A picture with data of a known format, or the text that stands for it. -/
def composePicture (setting : Setting) (props : Bag) : Noted (List Placed) := do
  let alt := Bag.textOr props Key.alt
  match Bag.text? props Key.resource with
  | none => do
    Noted.note externalNotice
    looseRun <$> composeRun .plain (pictureText alt)
  | some name =>
    match setting.doc.named? name with
    | none => do
      Noted.note (failedNotice name "Image refers to a resource that is not in the document")
      looseRun <$> composeRun .plain (pictureText alt)
    | some resource =>
      match ImageFormat.ofData? resource.data with
      | none => do
        Noted.note (failedNotice name
          ("Resource is not an image Word can embed (" ++ resource.mimeType ++ ")"))
        looseRun <$> composeRun .plain (pictureText alt)
      | some format => do
        let description ← composeDescription alt
        pure (looseRun ⟨.plain, [.picture ⟨format, resource.data, description⟩]⟩)

def undefinedNotice (label : String) : Notice :=
  .once (.footnote label) (.simplified "footnote reference"
    ("Footnote '" ++ label ++ "' has no definition; written as text"))

def referenceFormat : RunFormat := RunFormat.plain.enter (.script .superscript)

def composeReference (setting : Setting) (props : Bag) : Noted (List Placed) :=
  let label := Bag.textOr props Key.label
  match setting.number? label with
  | some number => pure (looseRun ⟨referenceFormat, [.footnote number]⟩)
  | none => do
    Noted.note (undefinedNotice label)
    looseRun <$> composeRun .plain ("[" ++ label ++ "]")

def heldRun (format : RunFormat) (text : String) : Noted (List Placed) :=
  (fun run => [.held run]) <$> composeRun format text

/-- A node that is not inline stands in a line as its text. -/
def composeUnknown (format : RunFormat) (node : Node) : Noted (List Placed) := do
  Noted.note (.ofUnknown node)
  if node.plainText = "" then pure [] else heldRun format node.plainText

/-- A link with an address, around the pieces of its content. -/
def composeLink (format : RunFormat) (url : String) (isBare : Bool) (content : Noted (List Placed)) :
    Noted (List Placed) := do
  let url ← storable url
  let pieces ← if isBare then heldRun format url else content
  pure (linkAround url pieces)

mutual

def compose (setting : Setting) (format : RunFormat) : Node → Noted (List Placed)
  | node@⟨kind, props, children, _⟩ =>
    match InlineRole.ofKind? kind with
    | none => composeUnknown format node
    | some .text => heldRun format (Bag.textOr props Key.content)
    | some .code => heldRun format.asCode (Bag.textOr props Key.content)
    | some (.mark mark) => composeAll setting (format.enter mark) children
    | some .span => composeAll setting format children
    | some .quoted => do
      let before ← heldRun format "“"
      let inside ← composeAll setting format children
      let after ← heldRun format "”"
      pure (before ++ inside ++ after)
    | some .link =>
      match Bag.filled? props Key.url with
      | none => (·.map fun piece => .loose piece.item) <$> composeAll setting format children
      | some url => composeLink format url children.isEmpty (composeAll setting format children)
    | some .image => composePicture setting props
    | some .lineBreak => heldRun format "\n"
    | some .softBreak => heldRun format " "
    | some .footnoteRef => composeReference setting props

def composeAll (setting : Setting) (format : RunFormat) : List Node → Noted (List Placed)
  | [] => pure []
  | node :: nodes => do
    let pieces ← compose setting format node
    let others ← composeAll setting format nodes
    pure (pieces ++ others)

end

/-- The items of a line. -/
def composeItems (setting : Setting) (nodes : List Node) : Noted (List RunItem) :=
  (·.map Placed.item) <$> composeAll setting .plain nodes

end Interchange.Word
