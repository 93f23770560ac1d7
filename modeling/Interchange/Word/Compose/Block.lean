import Interchange.Word.Compose.Inline

/-!
# Composing blocks

Blocks come out one after the other; lists become paragraphs in the styles of their levels, and
only tables nest. A node of a list that is no item is one by itself.
-/
namespace Interchange.Word

inductive BlockRole where
  | container
  | paragraph
  | heading
  | codeBlock
  | quote
  | list
  | listItem
  | table
  | rule
  | footnoteDef
  | inline
  | unknown
deriving DecidableEq

namespace BlockRole

def assignments : List (Kind × BlockRole) := [
  (.document, .container), (.div, .container), (.figure, .container),
  (.definitionList, .container),
  (.paragraph, .paragraph), (.caption, .paragraph), (.definitionTerm, .paragraph),
  (.heading, .heading), (.codeBlock, .codeBlock), (.blockquote, .quote), (.definitionDesc, .quote),
  (.list, .list), (.listItem, .listItem), (.table, .table), (.horizontalRule, .rule),
  (.footnoteDef, .footnoteDef)]

def ofKind (kind : Kind) : BlockRole :=
  match assignments.find? (·.1 = kind) with
  | some (_, role) => role
  | none => if (InlineRole.ofKind? kind).isSome then .inline else .unknown

end BlockRole

/-- Where a block stands. -/
structure Spot where
  inCell : Bool
  /-- Whether it stands directly in a list. -/
  inList : Bool
  /-- The number of lists around it. -/
  level : Nat
  /-- The style of plain paragraphs, where it is set from outside. -/
  paragraphStyle : Option String
  /-- The style of lines that are no paragraphs themselves. -/
  lineStyle : Option String

namespace Spot

def outermost : Spot := ⟨false, false, 0, none, none⟩

def inTableCell : Spot := ⟨true, false, 0, none, none⟩

/-- Inside a block that sets no style. -/
def within (spot : Spot) : Spot :=
  { spot with inList := false, paragraphStyle := none, lineStyle := none }

def quoted (spot : Spot) : Spot := { spot.within with paragraphStyle := some "Quote" }

/-- The style of the items of a list at a level; there are three. -/
def listStyle (ordered : Bool) (level : Nat) : String :=
  let base := if ordered then "List Number" else "List Bullet"
  if level = 0 then base else base ++ " " ++ Number.natText (min (level + 1) 3)

/-- Directly in a list that stands at the spot. -/
def list (spot : Spot) (ordered : Bool) : Spot :=
  let style := listStyle ordered spot.level
  ⟨spot.inCell, true, spot.level + 1, some style, some style⟩

/-- Inside an item of a list. -/
def item (spot : Spot) : Spot := { spot with inList := false }

end Spot

def ruleNotice : Notice :=
  .once (.feature "horizontal rule")
    (.simplified "horizontal rule" "Rule written as a centered separator line" .info)

def startNotice : Notice :=
  .once (.feature "list start") (.simplified "list start" "Numbered lists restart at 1")

def depthNotice : Notice :=
  .once (.feature "deep lists")
    (.simplified "nested lists" "Lists nested more than three deep are flattened")

def raggedNotice : Notice :=
  .once (.feature "ragged table")
    (.simplified "ragged table rows" "Short rows were padded with empty cells")

def nestedNotice : Notice :=
  .once (.feature "nested table") (.simplified "nested table" "Nested tables were written as text")

def composeParagraph (setting : Setting) (style : Option String) (alignment : Option Alignment)
    (children : List Node) : Noted (List Block) := do
  let items ← composeItems setting children
  pure [.paragraph ⟨style, alignment, items⟩]

/-- A paragraph of its own kind; a style from outside leaves no room for an alignment. -/
def composeOwnParagraph (setting : Setting) (spot : Spot) (kind : Kind) (props : Bag)
    (children : List Node) : Noted (List Block) :=
  match spot.paragraphStyle with
  | some style =>
    if kind = .paragraph then composeParagraph setting (some style) none children
    else composeParagraph setting none ((Bag.text? props Key.align).bind Alignment.ofName?) children
  | none => composeParagraph setting none ((Bag.text? props Key.align).bind Alignment.ofName?) children

def headingStyle (props : Bag) : String :=
  let level := (Bag.int? props Key.level).getD 1
  "Heading " ++ Number.intText (min (max (if level = 0 then 1 else level) 1) 9)

def composeCode (props : Bag) : Noted (List Block) := do
  let run ← composeRun RunFormat.plain.asCode (Bag.textOr props Key.content)
  pure [.paragraph ⟨none, none, [.run run]⟩]

/-- A rule; one that ends a page does so only outside of tables. -/
def composeRule (spot : Spot) (props : Bag) : Noted (List Block) :=
  if Bag.isOn props Key.pageBreak ∧ !spot.inCell then
    pure [.paragraph ⟨none, none, [.run ⟨.plain, [.pageBreak]⟩]⟩]
  else do
    Noted.note ruleNotice
    pure [.paragraph ⟨none, some .center, [.run (.ofText .plain "* * *")]⟩]

def composeText (text : String) : Noted (List Block) := do
  let text ← storable text
  pure [.paragraph (.ofText text)]

def composeUnknownBlock (node : Node) : Noted (List Block) := do
  Noted.note (.ofUnknown node)
  if node.plainText = "" then pure [] else composeText node.plainText

/-- What is noted of a list before its items. -/
def listNotices (spot : Spot) (props : Bag) : List Notice :=
  let start := (Bag.int? props Key.start).getD 1
  (if Bag.isOn props Key.ordered ∧ start ≠ 1 then [startNotice] else []) ++
    if 3 ≤ spot.level then [depthNotice] else []

/-- A row with empty cells up to the width of its table. -/
def padRow (width : Nat) (cells : List (List Block)) : List (List Block) :=
  cells ++ List.replicate (width - cells.length) [.paragraph .empty]

/-- The width of a table: the number of cells of its longest row. -/
def tableWidth (children : List Node) : Nat :=
  ((children.filter (·.kind = .tableRow)).map (·.children.length)).foldl max 0

def isRagged (children : List Node) : Bool :=
  (children.filter (·.kind = .tableRow)).any (·.children.length ≠ tableWidth children)

/-- A table in a cell is followed by an empty paragraph, since no cell ends with a table. -/
def tableBlocks (setting : Setting) (spot : Spot) (rows : List (List (List Block))) : List Block :=
  .table setting.tableStyle rows :: if spot.inCell then [.paragraph .empty] else []

/-- A table directly in a cell is written as its text. -/
def composeNestedTable (node : Node) : Noted (List Block) := do
  Noted.note nestedNotice
  composeText node.textContent

mutual

def composeBlock (setting : Setting) (spot : Spot) : Node → Noted (List Block)
  | node@⟨kind, props, children, _⟩ =>
    match BlockRole.ofKind kind with
    | .container => composeBlocks setting spot.within children
    | .paragraph => composeOwnParagraph setting spot kind props children
    | .heading => composeParagraph setting (some (headingStyle props)) none children
    | .codeBlock => composeCode props
    | .quote => composeBlocks setting spot.quoted children
    | .list => do
      Noted.noteAll (listNotices spot props)
      composeBlocks setting (spot.list (Bag.isOn props Key.ordered)) children
    | .listItem =>
      if spot.inList then composeBlocks setting spot.item children else composeUnknownBlock node
    | .table =>
      if tableWidth children = 0 then pure []
      else do
        Noted.noteWhen (isRagged children) raggedNotice
        let rows ← composeRows setting (tableWidth children) children
        pure (tableBlocks setting spot rows)
    | .rule => composeRule spot props
    | .footnoteDef => pure []
    | .inline => composeParagraph setting spot.lineStyle none [node]
    | .unknown => composeUnknownBlock node

def composeBlocks (setting : Setting) (spot : Spot) : List Node → Noted (List Block)
  | [] => pure []
  | node :: nodes => do
    let blocks ← composeBlock setting spot node
    let others ← composeBlocks setting spot nodes
    pure (blocks ++ others)

def composeRows (setting : Setting) (width : Nat) : List Node → Noted (List (List (List Block)))
  | [] => pure []
  | ⟨kind, _, cells, _⟩ :: nodes => do
    let row ← if kind = .tableRow then composeCells setting cells else pure []
    let rows ← composeRows setting width nodes
    pure (if kind = .tableRow then padRow width row :: rows else rows)

def composeCells (setting : Setting) : List Node → Noted (List (List Block))
  | [] => pure []
  | ⟨_, _, children, _⟩ :: nodes => do
    let cell ← composeCell setting children
    let cells ← composeCells setting nodes
    pure (cell :: cells)

/-- A cell begins with a paragraph, which a line of inline nodes or a first paragraph fills. -/
def composeCell (setting : Setting) : List Node → Noted (List Block)
  | [] => pure [.paragraph .empty]
  | node :: nodes =>
    if (node :: nodes).all isInline then composeParagraph setting none none (node :: nodes)
    else if node.kind = .paragraph then do
      let first ← composeParagraph setting none none node.children
      let others ← composeCellBlocks setting nodes
      pure (first ++ others)
    else do
      let blocks ← if node.kind = .table then composeNestedTable node
        else composeBlock setting .inTableCell node
      let others ← composeCellBlocks setting nodes
      pure (.paragraph .empty :: blocks ++ others)

def composeCellBlocks (setting : Setting) : List Node → Noted (List Block)
  | [] => pure []
  | node :: nodes => do
    let blocks ← if node.kind = .table then composeNestedTable node
      else composeBlock setting .inTableCell node
    let others ← composeCellBlocks setting nodes
    pure (blocks ++ others)

end

end Interchange.Word
