import Interchange.Proofs.Document.StyledText
import Interchange.Word.Reader
import Interchange.Word.Writer
import Mathlib.Tactic

/-!
# Plain blocks

Headings, paragraphs, page breaks, flat lists and tables of lines. Each is written as blocks of a
composition, and read as entries of a body, of which one node is made.
-/
namespace Interchange.Word

/-- Text in one style, of characters that stand for themselves. -/
structure Piece where
  style : TextStyle
  text : List Char
  printable : ∀ c ∈ text, ' ' ≤ c

/-- A format that is a style and nothing else. -/
def plainFormat (style : TextStyle) : RunFormat := ⟨style, false, [], false⟩

namespace Piece

def chars (piece : Piece) : List (Char × TextStyle) := piece.text.map (·, piece.style)

def run (piece : Piece) : Run := .ofText (plainFormat piece.style) (String.ofList piece.text)

/-- What the run is read as. -/
def nodes (piece : Piece) : List Node :=
  if piece.text.isEmpty then [] else [(Node.text (String.ofList piece.text)).styled piece.style]

end Piece

abbrev PlainLine := List Piece

namespace PlainLine

def chars (line : PlainLine) : List (Char × TextStyle) := line.flatMap Piece.chars

def items (line : PlainLine) : List RunItem := line.map fun piece => .run piece.run

def nodes (line : PlainLine) : List Node := line.flatMap Piece.nodes

/-- What is read has the characters of the line, in their styles. -/
theorem styledCharsAmong_nodes (line : PlainLine) :
    Node.styledCharsAmong .plain line.nodes = line.chars := by
  rw [Node.styledCharsAmong_eq_flatMap, nodes, List.flatMap_assoc]
  refine List.flatMap_congr fun piece _ => ?_
  rw [Piece.nodes, Piece.chars]
  split
  · next hempty =>
    rw [List.isEmpty_iff.1 hempty]
    rfl
  · rw [List.flatMap_cons, Node.styledChars_styled_text, String.toList_ofList]
    exact List.append_nil _

lemma nodes_ne_nil {line : PlainLine} (h : line.chars ≠ []) : line.nodes ≠ [] := by
  intro hnone
  rw [← styledCharsAmong_nodes, hnone] at h
  exact h rfl

end PlainLine

inductive PlainBlock where
  /-- The level counts from zero. -/
  | heading (level : Fin 6) (line : PlainLine)
  | paragraph (alignment : Option Alignment) (line : PlainLine) (filled : line.chars ≠ [])
  | pageBreak
  | list (ordered : Bool) (items : List PlainLine) (filled : items ≠ [])
  | table (rows : List (List PlainLine))

/-- The style of a heading. -/
def headingName (level : Fin 6) : String := "Heading " ++ Number.natText (level + 1)

namespace PlainBlock

def lineBlock (style : Option String) (alignment : Option Alignment) (line : PlainLine) : Block :=
  .paragraph ⟨style, alignment, line.items⟩

/-- The blocks of a composition; a list is one paragraph for each item. -/
def written (tableStyle : Option String) : PlainBlock → List Block
  | .heading level line => [lineBlock (some (headingName level)) none line]
  | .paragraph alignment line _ => [lineBlock none alignment line]
  | .pageBreak => [.paragraph ⟨none, none, [.run ⟨.plain, [.pageBreak]⟩]⟩]
  | .list ordered items _ => items.map (lineBlock (some (Spot.listStyle ordered 0)) none)
  | .table rows => [.table tableStyle (rows.map fun row => row.map fun line =>
      [lineBlock none none line])]

def paragraphNode (alignment : Option Alignment) (line : PlainLine) : Node :=
  match alignment with
  | some alignment => (Node.paragraph line.nodes).withText Key.align alignment.name
  | none => .paragraph line.nodes

def itemNode (line : PlainLine) : Node := .listItem [.paragraph line.nodes]

/-- A cell without text has no paragraph. -/
def cellNode (header : Bool) (line : PlainLine) : Node :=
  .tableCell header (([line.nodes].filter (!·.isEmpty)).map .paragraph)

/-- Only the first row is a header. -/
def rowNodes (header : Bool) : List (List PlainLine) → List Node
  | [] => []
  | row :: rows => .tableRow (row.map (cellNode header)) :: rowNodes false rows

/-- The node that is read. -/
def node : PlainBlock → Node
  | .heading level line => .heading (level + 1) line.nodes
  | .paragraph alignment line _ => paragraphNode alignment line
  | .pageBreak => .pageBreak
  | .list ordered items _ => .list ordered (items.map itemNode)
  | .table rows => .table (rowNodes true rows)

/-- The entries of a body that the node is made of. -/
def entries : PlainBlock → List Entry
  | .pageBreak => [.nothing, .pageBreak]
  | .list ordered items _ => items.map fun line => .item ordered (itemNode line)
  | block => [.block block.node]

/-- The kind of a list, if the block is one. -/
def listKind? : PlainBlock → Option Bool
  | .list ordered _ _ => some ordered
  | _ => none

end PlainBlock

namespace Entry

lemma blocksAfter_items (ordered : Bool) (items others : List Node) (rest : List Entry) :
    blocksAfter ordered items (others.map (.item ordered) ++ rest) =
      blocksAfter ordered (items ++ others) rest := by
  induction others generalizing items with
  | nil => rw [List.append_nil]; rfl
  | cons other others ih =>
    rw [List.map_cons, List.cons_append, blocksAfter, if_pos rfl, ih, List.append_assoc]
    rfl

/-- A list begins anew where none is begun or one of the other kind is. -/
lemma blocksAfter_list {ordered kind : Bool} {items others : List Node} (rest : List Entry)
    (hothers : others ≠ []) (hitems : items ≠ [] → kind ≠ ordered) :
    blocksAfter ordered items (others.map (.item kind) ++ rest) =
      listOf ordered items ++ blocksAfter kind others rest := by
  obtain ⟨other, others, rfl⟩ := List.exists_cons_of_ne_nil hothers
  have hrest := blocksAfter_items kind [other] others rest
  rw [List.map_cons, List.cons_append, blocksAfter]
  by_cases hkind : kind = ordered
  · subst hkind
    obtain rfl : items = [] := by
      by_contra hne
      exact hitems hne rfl
    rw [if_pos rfl]
    exact hrest
  · rw [if_neg hkind, hrest]
    rfl

end Entry

/-- Lists of one kind do not follow each other. -/
def Alternate (blocks : List PlainBlock) : Prop :=
  blocks.IsChain fun block next => block.listKind? = none ∨ block.listKind? ≠ next.listKind?

/-- The entries of blocks make up these blocks again; the list begun before is of another kind than
one that follows. -/
theorem blocksAfter_entries {blocks : List PlainBlock} (hblocks : Alternate blocks) (ordered : Bool)
    (items : List Node)
    (hitems : items ≠ [] → ∀ block ∈ blocks.head?, block.listKind? ≠ some ordered) :
    Entry.blocksAfter ordered items (blocks.flatMap PlainBlock.entries) =
      Entry.listOf ordered items ++ blocks.map PlainBlock.node := by
  induction blocks generalizing ordered items with
  | nil => exact (List.append_nil _).symm
  | cons block blocks ih =>
    have hrest : Alternate blocks := hblocks.tail
    have hfresh (kind : Bool) := ih hrest kind [] nofun
    have hsingle (h : block.entries = [.block block.node]) :
        Entry.blocksAfter ordered items ((block :: blocks).flatMap PlainBlock.entries) =
          Entry.listOf ordered items ++ (block :: blocks).map PlainBlock.node := by
      rw [List.flatMap_cons, h, List.singleton_append, Entry.blocksAfter, hfresh]
      rfl
    cases block with
    | heading level line => exact hsingle rfl
    | paragraph alignment line filled => exact hsingle rfl
    | table rows => exact hsingle rfl
    | pageBreak =>
      rw [List.flatMap_cons, PlainBlock.entries, List.cons_append, List.singleton_append,
        Entry.blocksAfter, Entry.blocksAfter, hfresh]
      rfl
    | list kind lines filled =>
      have hentries : (PlainBlock.list kind lines filled).entries =
          (lines.map PlainBlock.itemNode).map (.item kind) := List.map_map.symm
      have hlines : lines.map PlainBlock.itemNode ≠ [] := by simpa using filled
      have hkind : items ≠ [] → kind ≠ ordered := fun hne hsame =>
        hitems hne _ rfl (congrArg some hsame)
      have hnext : lines.map PlainBlock.itemNode ≠ [] →
          ∀ block ∈ blocks.head?, block.listKind? ≠ some kind := by
        intro _ next hnext hsame
        obtain ⟨others, rfl⟩ : ∃ others, blocks = next :: others := List.head?_eq_some_iff.1 hnext
        rcases hblocks.rel with hnone | hother
        · cases hnone
        · exact hother hsame.symm
      have hlist : Entry.listOf kind (lines.map PlainBlock.itemNode) =
          [(PlainBlock.list kind lines filled).node] := if_neg (by simpa using filled)
      rw [List.flatMap_cons, hentries, Entry.blocksAfter_list _ hlines hkind, ih hrest kind _ hnext,
        hlist]
      rfl

end Interchange.Word
