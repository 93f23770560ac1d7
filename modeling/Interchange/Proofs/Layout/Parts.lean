import Interchange.Proofs.Layout.Shapes
import Mathlib.Data.List.GetD

/-!
# Parts on both media

What the parts of a node become on a terminal and on paper is put together in the same way, and the
texts that a node has besides its parts are free of escape characters when its properties are.
-/
namespace Interchange.Layout

open Terminal (escapeChar)

variable {edge : Char → Bool}

/-- What a node becomes on a terminal and on paper: the same, but for the sequences. -/
inductive Alike (edge : Char → Bool) : Rendered → Rendered → Prop
  | piece {cs ds : Chars} (h : Dressed edge cs ds) : Alike edge (.piece cs) (.piece ds)
  | blocks {bs bs' : List Chars} (h : List.Forall₂ (Dressed edge) bs bs') :
      Alike edge (.blocks bs) (.blocks bs')

namespace Alike

lemma mono {edge' : Char → Bool} (hedge : ∀ c, edge c = true → edge' c = true)
    {part part' : Rendered} (h : Alike edge part part') : Alike edge' part part' := by
  cases h with
  | piece h => exact .piece (h.mono hedge)
  | blocks h => exact .blocks (h.imp fun _ _ hblock => hblock.mono hedge)

lemma toPiece {part part' : Rendered} (h : Alike edge part part') :
    Dressed edge part.toPiece part'.toPiece := by
  cases h with
  | piece h => exact h
  | blocks h => exact .joinWith (by decide) h

lemma toBlocks {part part' : Rendered} (h : Alike edge part part') :
    List.Forall₂ (Dressed edge) part.toBlocks part'.toBlocks := by
  cases h with
  | piece h => exact h.nonempty
  | blocks h => exact h

variable {parts parts' : List Rendered}

lemma inlineText (h : List.Forall₂ (Alike edge) parts parts') :
    Dressed edge (inlineText parts) (inlineText parts') := by
  induction h with
  | nil => exact .nil
  | cons hpart _ ih => exact hpart.toPiece.append ih

lemma flowFrom (h : List.Forall₂ (Alike edge) parts parts') {run run' : Chars}
    (hrun : Dressed edge run run') :
    List.Forall₂ (Dressed edge) (flowFrom run parts) (flowFrom run' parts') := by
  induction h generalizing run run' with
  | nil => exact hrun.nonempty
  | cons hpart _ ih =>
    cases hpart with
    | piece hpiece => exact ih (hrun.append hpiece)
    | blocks hblocks =>
      have hfilled := List.rel_filter (p := (!·.isEmpty)) (q := (!·.isEmpty))
        (fun block block' (hblock : Dressed edge block block') => by simp [hblock.isEmpty_eq])
        hblocks
      exact List.rel_append (List.rel_append hrun.nonempty hfilled) (ih .nil)

lemma flow (h : List.Forall₂ (Alike edge) parts parts') :
    List.Forall₂ (Dressed edge) (flow parts) (flow parts') :=
  flowFrom h .nil

lemma listBlock (hedge : edge '\n' = false) (h : List.Forall₂ (Alike edge) parts parts')
    (props : Bag) :
    List.Forall₂ (Dressed edge) (listBlock props parts) (listBlock props parts') := by
  have hitems : List.Forall₂ (Dressed edge) (parts.map fun item => unlines (Layout.flow [item]))
      (parts'.map fun item => unlines (Layout.flow [item])) := by
    rw [List.forall₂_map_left_iff, List.forall₂_map_right_iff]
    exact h.imp fun item item' hitem => .unlines (flow (.cons hitem .nil))
  have hlines : List.Forall₂ (Dressed edge) (listLines (Bag.isOn props Key.ordered) _ _)
      (listLines _ _ _) := Dressed.listLines hedge hitems ((Bag.int? props Key.start).getD 1)
  unfold Layout.listBlock
  dsimp only
  generalize listLines _ _ _ = ls at hlines ⊢
  generalize listLines _ _ _ = ls' at hlines ⊢
  cases hlines with
  | nil => exact .nil
  | cons hline hlines => exact .cons (.unlines (.cons hline hlines)) .nil

lemma cellText (hedge : edge '\n' = false) (h : List.Forall₂ (Alike edge) parts parts') :
    Dressed edge (cellText parts) (cellText parts') :=
  (Dressed.joinWith (by decide) (flow h)).flatten hedge

lemma tableBlock {separator : Chars} (hsep : escapeChar ∉ separator)
    {rows rows' : List (List (List Rendered))} (h : List.Forall₂ (fun row row' =>
      row.length = row'.length ∧ ∀ column, List.Forall₂
        (Alike (cellEdge edge (greatest (rows'.map List.length)) column))
        (row.getD column []) (row'.getD column [])) rows rows') :
    List.Forall₂ (Dressed edge) (tableBlock separator rows) (tableBlock separator rows') := by
  have hcolumns (rows : List (List (List Rendered))) :
      columnCount (rows.map (·.map Layout.cellText)) = greatest (rows.map List.length) := by
    simp [columnCount, Function.comp_def]
  have hlengths : List.Forall₂ (· = ·) (rows.map List.length) (rows'.map List.length) := by
    rw [List.forall₂_map_left_iff, List.forall₂_map_right_iff]
    exact h.imp fun row row' hrow => hrow.1
  have hcount : columnCount (rows.map (·.map Layout.cellText)) =
      columnCount (rows'.map (·.map Layout.cellText)) := by
    rw [List.forall₂_eq_eq_eq] at hlengths
    rw [hcolumns, hcolumns, hlengths]
  have hcell (row : List (List Rendered)) (column : ℕ) :
      (row.map Layout.cellText).getD column [] = Layout.cellText (row.getD column []) :=
    row.getD_map [] Layout.cellText
  have hbreak (column : ℕ) :
      cellEdge edge (greatest (rows'.map List.length)) column '\n' = false := by
    have hblank : Text.isBlank '\n' = true := by decide
    simp [cellEdge, hblank]
  have hlines : List.Forall₂ (Dressed edge)
      (tableLines separator (rows.map (·.map Layout.cellText)))
      (tableLines separator (rows'.map (·.map Layout.cellText))) := by
    refine Dressed.tableLines hsep hcount ?_
    rw [List.forall₂_map_left_iff, List.forall₂_map_right_iff, hcolumns]
    refine h.imp fun row row' hrow column => ?_
    rw [hcell, hcell]
    exact cellText (hbreak column) (hrow.2 column)
  unfold Layout.tableBlock
  cases h with
  | nil => exact .nil
  | cons _ _ => exact .cons (.unlines hlines) .nil

end Alike

section Texts

variable {props : Bag}

lemma escape_notMem_charsOr (h : Bag.lacks escapeChar props = true) (name : String)
    {default : String} (hdefault : escapeChar ∉ default.toList) :
    escapeChar ∉ charsOr props name default := by
  rw [charsOr]
  cases hfilled : Bag.filled? props name with
  | none => exact hdefault
  | some text => exact Bag.notMem_of_filled? h hfilled

lemma escape_notMem_imageText (h : Bag.lacks escapeChar props = true) :
    escapeChar ∉ imageText props := by
  have hopening : escapeChar ∉ "[Image: ".toList := by decide
  have hclosing : escapeChar ∉ "]".toList := by decide
  rw [imageText]
  split
  · next alt halt =>
    rw [List.mem_append, List.mem_append, not_or, not_or]
    exact ⟨⟨hopening, Bag.notMem_of_filled? h halt⟩, hclosing⟩
  · decide

lemma escape_notMem_footnoteMark (h : Bag.lacks escapeChar props = true) :
    escapeChar ∉ footnoteMark props := by
  have hopening : escapeChar ∉ "[".toList := by decide
  have hclosing : escapeChar ∉ "]".toList := by decide
  rw [footnoteMark, List.mem_append, List.mem_append, not_or, not_or]
  exact ⟨⟨hopening, escape_notMem_charsOr h _ (by decide)⟩, hclosing⟩

lemma escape_notMem_ruleText (props : Bag) : escapeChar ∉ ruleText props := by
  rw [ruleText]
  split <;> decide

lemma escape_notMem_mathText {node : Node} (h : node.lacks escapeChar = true) :
    escapeChar ∉ mathText node := by
  rw [mathText]
  cases hsource : Bag.text? node.props Key.mathSource with
  | none => exact Node.notMem_plainText h
  | some source => exact Bag.notMem_of_text? (Node.lacks_iff.1 h).1 hsource

end Texts

end Interchange.Layout
