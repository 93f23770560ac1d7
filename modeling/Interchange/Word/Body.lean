import Interchange.Word.Inline
import Interchange.Word.Library.Content
import Interchange.Word.Library.Values

/-!
# The body of a document

Each paragraph and table of the body becomes an entry, and the entries in order become blocks:
successive items of one kind of list make up one list.
-/
namespace Interchange.Word

open Markup (Element)

/-- What a paragraph or a table comes to. -/
inductive Entry where
  | item (ordered : Bool) (node : Node)
  | block (node : Node)
  /-- A paragraph without content. It ends a list all the same. -/
  | nothing
  | pageBreak

namespace Entry

def listOf (ordered : Bool) (items : List Node) : List Node :=
  if items.isEmpty then [] else [.list ordered items]

/-- The blocks of entries after a list already begun. -/
def blocksAfter (ordered : Bool) (items : List Node) : List Entry → List Node
  | [] => listOf ordered items
  | .item kind node :: entries =>
    if kind = ordered then blocksAfter ordered (items ++ [node]) entries
    else listOf ordered items ++ blocksAfter kind [node] entries
  | .block node :: entries => listOf ordered items ++ node :: blocksAfter ordered [] entries
  | .nothing :: entries => listOf ordered items ++ blocksAfter ordered [] entries
  | .pageBreak :: entries => listOf ordered items ++ .pageBreak :: blocksAfter ordered [] entries

def blocks (entries : List Entry) : List Node := blocksAfter false [] entries

end Entry

namespace Body

def property? (paragraph : Element) (name : String) : Option Element :=
  (paragraph.first? (w "pPr")).bind (·.first? (w name))

/-- The name of the style of a paragraph, as it is shown. -/
def styleName? (source : Source) (paragraph : Element) : Option String := do
  let styles ← source.styles
  let id ← match property? paragraph "pStyle" with
    | none => some none
    | some style => (style.attribute? (w "val")).map some
  some (((styles.ofReference? id).map fun style => Style.shownName style.name).getD "")

/-- The numbering of a paragraph. -/
def numbering? (paragraph : Element) : Option Element :=
  ((paragraph.named (w "pPr")).flatMap (·.named (w "numPr"))).head?

/-- Whether a paragraph is an item of a numbered or of a bulleted list. -/
def listKind? (styleName : String) (paragraph : Element) : Option Bool :=
  if styleName.startsWith "List Number" then some true
  else if styleName.startsWith "List Bullet" ∨ (numbering? paragraph).isSome then some false
  else none

/-- Whether an item stands below the first level of its list. -/
def isNested (paragraph : Element) : Bool :=
  match (numbering? paragraph).bind (·.first? (w "ilvl")) with
  | some level =>
    match level.attribute? (w "val") with
    | some text => text != "0"
    | none => false
  | none => false

/-- The level of a heading with the given style; there are six. -/
def headingLevel? (styleName : String) : Option Nat :=
  if styleName = "Title" then some 1
  else match "Heading ".toList.isPrefixOf styleName.toList, (styleName.toList.drop 8) with
    | true, [c] => (Text.decimalValue? c).map fun n => min (max n 1) 6
    | true, [c, '\n'] => (Text.decimalValue? c).map fun n => min (max n 1) 6
    | _, _ => none

/-- The alignment of a paragraph, if it has one that a document can say. -/
def alignment? (paragraph : Element) : Option (Option Alignment) :=
  match property? paragraph "jc" with
  | none => some none
  | some element => element.attribute? (w "val") >>= Alignment.ofCode?

/-- The entry of a paragraph that is no item. -/
def plain? (styleName : String) (paragraph : Element) (inlines : List Node) : Option Entry :=
  match headingLevel? styleName with
  | some level => some (.block (.heading level inlines))
  | none =>
    if inlines.isEmpty then some .nothing
    else (alignment? paragraph).map fun alignment =>
      let node := Node.paragraph inlines
      .block (match alignment with
        | some alignment => node.withText Key.align alignment.name
        | none => node)

/-- Whether a page ends in the paragraph. -/
def endsPage (paragraph : Element) : Bool :=
  (paragraph.deep (w "br")).any fun e => e.attribute? (w "type") = some "page"

def paragraph (source : Source) (element : Element) : Finding (List Entry) := do
  let inlines ← Inline.ofParagraph source element
  let styleName ← Finding.need (styleName? source element)
  let entry ← match listKind? styleName element with
    | some ordered => do
      if isNested element then
        Finding.simplified "nested lists" "Nested list levels were flattened"
      pure (.item ordered (.listItem [.paragraph inlines]))
    | none => Finding.need (plain? styleName element inlines)
  pure (if endsPage element then [entry, .pageBreak] else [entry])

/-- The content of a cell: the paragraphs directly in it that are not empty. -/
def cell (source : Source) (header : Bool) (element : Element) : Finding Node := do
  let paragraphs ← (element.named (w "p")).mapM (Inline.ofParagraph source)
  pure (.tableCell header ((paragraphs.filter (!·.isEmpty)).map .paragraph))

/-- The cells of a row, each the first time that it comes up. -/
def cells (source : Source) (header : Bool) (seen : List GridPlace) :
    List PlacedCell → Finding (List Node)
  | [] => pure []
  | ⟨place, element⟩ :: others =>
    if place ∈ seen then do
      Finding.lost "merged cells" "Merged table cells were split back to single cells"
      cells source header seen others
    else do
      let node ← cell source header element
      let nodes ← cells source header (place :: seen) others
      pure (node :: nodes)

/-- The rows of a table below those already read, of which the nearest comes first. Only the first
row of all is a header. -/
def rows (source : Source) (above : List GridRow) : List GridRow → Finding (List Node)
  | [] => pure []
  | row :: others => do
    let placed ← Finding.need (row.placedCells? above)
    let nodes ← cells source above.isEmpty [] placed
    let later ← rows source (row :: above) others
    pure (.tableRow nodes :: later)

def table (source : Source) (element : Element) : Finding Node := do
  let rows ← rows source [] ((element.named (w "tr")).map .ofElement)
  pure (.table rows)

/-- The entries of what stands in the body; what is neither a paragraph nor a table is passed
over and ends no list. -/
def entries (source : Source) (element : Element) : Finding (List Entry) :=
  if element.name = w "tbl" then do
    let node ← table source element
    pure [.block node]
  else if element.name = w "p" then paragraph source element
  else pure []

def blocks (source : Source) (body : Element) : Finding (List Node) := do
  let found ← body.children.mapM (entries source)
  pure (Entry.blocks found.flatten)

end Body

end Interchange.Word
