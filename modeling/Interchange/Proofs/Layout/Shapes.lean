import Interchange.Proofs.Document.Texts
import Interchange.Proofs.Layout.Dressing
import Interchange.Proofs.Number.Digits

/-!
# Shapes of dressed text

Each shape of the layout makes dressed text of dressed text, under the condition on the edges that
the shape needs. A table aligns its columns by the lengths of the cells, so only the last column,
behind which nothing stands, may be dressed at all.
-/
namespace Interchange.Layout

open Terminal (escapeChar)

variable {edge : Char → Bool}

namespace Dressed

lemma intercalate {separator : Chars} (hsep : escapeChar ∉ separator) {pieces pieces' : List Chars}
    (h : List.Forall₂ (Dressed edge) pieces pieces') :
    Dressed edge (List.intercalate separator pieces) (List.intercalate separator pieces') := by
  induction h with
  | nil => exact .nil
  | cons hpiece hpieces ih =>
    cases hpieces with
    | nil => simpa using hpiece
    | cons hnext hrest =>
      rw [List.intercalate_cons_cons, List.intercalate_cons_cons]
      exact (hpiece.append (.refl hsep)).append ih

lemma joinWith {separator : String} (hsep : escapeChar ∉ separator.toList)
    {pieces pieces' : List Chars} (h : List.Forall₂ (Dressed edge) pieces pieces') :
    Dressed edge (joinWith separator pieces) (joinWith separator pieces') :=
  intercalate hsep h

lemma unlines {ls ls' : List Chars} (h : List.Forall₂ (Dressed edge) ls ls') :
    Dressed edge (unlines ls) (unlines ls') :=
  joinWith (by decide) h

lemma flatMap {α : Type} {f g : α → Chars} {xs : List α} (h : ∀ x ∈ xs, Dressed edge (f x) (g x)) :
    Dressed edge (xs.flatMap f) (xs.flatMap g) := by
  induction xs with
  | nil => exact .nil
  | cons x xs ih =>
    obtain ⟨hx, hxs⟩ := List.forall_mem_cons.1 h
    rw [List.flatMap_cons, List.flatMap_cons]
    exact hx.append (ih hxs)

variable {cs ds : Chars}

/-- A block made of a text, unless there is none. -/
lemma unlessEmpty {edge' : Char → Bool} (h : Dressed edge cs ds) (shape : Chars → Chars)
    (hshape : Dressed edge' (shape cs) (shape ds)) :
    List.Forall₂ (Dressed edge') (if cs.isEmpty then [] else [shape cs])
      (if ds.isEmpty then [] else [shape ds]) := by
  rw [h.isEmpty_eq]
  split
  · exact .nil
  · exact .cons hshape .nil

lemma nonempty (h : Dressed edge cs ds) :
    List.Forall₂ (Dressed edge) (nonempty cs) (nonempty ds) :=
  h.unlessEmpty id h

lemma behind {margin : Chars} (hmargin : escapeChar ∉ margin) (h : Dressed edge cs ds) :
    Dressed edge (behind margin cs) (behind margin ds) := by
  rw [Layout.behind, Layout.behind, h.isEmpty_eq]
  split
  · exact h
  · exact (refl hmargin).append h

lemma indent (hedge : edge '\n' = false) (h : Dressed edge cs ds) :
    Dressed edge (indent cs) (indent ds) := by
  have hlines := h.lines hedge
  refine unlines (List.forall₂_map_left_iff.2 (List.forall₂_map_right_iff.2 (hlines.imp ?_)))
  exact fun line line' hline => hline.behind (by decide)

lemma quote (hedge : ∀ c, edge c = true → Text.isBlank c = false) (h : Dressed edge cs ds) :
    Dressed edge (quote cs) (quote ds) := by
  have hbreak : edge '\n' = false := by
    by_contra hallowed
    have hblank := hedge '\n' (by simpa using hallowed)
    cases hblank
  have hlines := h.lines hbreak
  refine unlines (List.forall₂_map_left_iff.2 (List.forall₂_map_right_iff.2 (hlines.imp ?_)))
  exact fun line line' hline => ((refl (by decide)).append hline).stripEnd hedge

lemma escape_notMem_marker (ordered : Bool) (number : ℤ) :
    escapeChar ∉ marker ordered number := by
  have hdigits : escapeChar ∉ Number.intDigits number :=
    Number.notMem_intDigits (by decide) (by decide) number
  have hdot : escapeChar ∉ ". ".toList := by decide
  rw [marker]
  split
  · rw [List.mem_append, not_or]
    exact ⟨hdigits, hdot⟩
  · decide

lemma itemLines (hedge : edge '\n' = false) {marker : Chars} (hmarker : escapeChar ∉ marker)
    (h : Dressed edge cs ds) :
    List.Forall₂ (Dressed edge) (itemLines marker cs) (itemLines marker ds) := by
  have hlines := h.lines hedge
  have hmargin : escapeChar ∉ List.replicate marker.length ' ' := by
    intro hmem
    exact absurd (List.eq_of_mem_replicate hmem) (by decide)
  unfold Layout.itemLines
  generalize Layout.lines cs = ls at hlines ⊢
  generalize Layout.lines ds = ls' at hlines ⊢
  cases hlines with
  | nil => exact .cons (refl hmarker) .nil
  | cons hfirst hrest =>
    refine .cons ((refl hmarker).append hfirst) ?_
    rw [List.forall₂_map_left_iff, List.forall₂_map_right_iff]
    exact hrest.imp fun line line' hline => hline.behind hmargin

lemma listLines (hedge : edge '\n' = false) {ordered : Bool} {items items' : List Chars}
    (h : List.Forall₂ (Dressed edge) items items') (number : ℤ) :
    List.Forall₂ (Dressed edge) (listLines ordered number items)
      (listLines ordered number items') := by
  induction h generalizing number with
  | nil => exact .nil
  | cons hitem _ ih =>
    exact List.rel_append (hitem.itemLines hedge (escape_notMem_marker ordered number))
      (ih (number + 1))

lemma flatten (hedge : edge '\n' = false) (h : Dressed edge cs ds) :
    Dressed edge (flatten cs) (flatten ds) := by
  have kept {cs : Chars} (hcs : '\n' ∉ cs) : Layout.flatten cs = cs := by
    calc Layout.flatten cs = cs.map id := List.map_congr_left fun c hc =>
          if_neg (ne_of_mem_of_not_mem hc hcs)
      _ = cs := List.map_id cs
  induction h with
  | nil => exact .nil
  | @char c cs ds visible _ ih =>
    have hshown : (if c = '\n' then ' ' else c) ≠ escapeChar := by
      split
      · decide
      · exact visible
    exact .char hshown ih
  | @switched c before behind cs ds visible allowed hbefore hbehind _ ih =>
    have hc : '\n' ∉ [c] := by
      rw [List.mem_singleton]
      rintro rfl
      rw [hedge] at allowed
      cases allowed
    have happend (cs ds : Chars) :
        Layout.flatten (cs ++ ds) = Layout.flatten cs ++ Layout.flatten ds := List.map_append
    rw [← List.singleton_append, ← List.singleton_append (l := ds), happend, happend, happend,
      happend, kept hbefore.unbroken, kept hc, kept hbehind.unbroken]
    exact .switched visible allowed hbefore hbehind ih

lemma padRight (width : ℕ) (h : Dressed edge cs ds) (hlength : cs.length = ds.length) :
    Dressed edge (padRight width cs) (padRight width ds) := by
  have hpadding : escapeChar ∉ List.replicate (width - ds.length) ' ' := by
    intro hmem
    exact absurd (List.eq_of_mem_replicate hmem) (by decide)
  rw [Layout.padRight, Layout.padRight, hlength]
  exact h.append (refl hpadding)

end Dressed

/-- Every piece but the last has the separator behind it. -/
lemma intercalate_concat (separator : Chars) (pieces : List Chars) (last : Chars) :
    List.intercalate separator (pieces ++ [last]) = pieces.flatMap (· ++ separator) ++ last := by
  induction pieces with
  | nil => simp
  | cons piece pieces ih =>
    cases pieces with
    | nil => simp
    | cons next pieces =>
      rw [List.cons_append, List.cons_append, List.intercalate_cons_cons, ← List.cons_append, ih]
      simp only [List.flatMap_cons, List.append_assoc]

/-- The cells of a row, each as wide as its column. -/
lemma mapIdx_padRight (width : ℕ → ℕ) (columns : ℕ) (row : List Chars) :
    ((List.range columns).map width).mapIdx
      (fun column width => padRight width (row.getD column [])) =
        (List.range columns).map fun column => padRight (width column) (row.getD column []) := by
  refine List.ext_getElem (by simp) fun column _ _ => ?_
  simp

/-- A line of a table: the last cell is not padded, since blanks at the end are trimmed. -/
lemma tableLine_eq (separator : Chars) (width : ℕ → ℕ) (last : ℕ) (row : List Chars) :
    tableLine separator ((List.range (last + 1)).map width) row =
      Text.stripEnd ((List.range last).flatMap (fun column =>
        padRight (width column) (row.getD column []) ++ separator) ++ row.getD last []) := by
  have hpadding : ∀ c ∈ List.replicate (width last - (row.getD last []).length) ' ',
      Text.isBlank c = true := by
    intro c hc
    rw [List.eq_of_mem_replicate hc]
    decide
  rw [tableLine, mapIdx_padRight, List.range_succ, List.map_append, List.map_singleton,
    intercalate_concat, List.flatMap_map, padRight, ← List.append_assoc,
    Text.stripEnd_append_of_blank hpadding]

/-- Only in the last column of a table may there be styled text. -/
def cellEdge (edge : Char → Bool) (columns column : ℕ) : Char → Bool :=
  fun c => column + 1 = columns && edge c && !Text.isBlank c

lemma cellEdge_le {columns column : ℕ} {c : Char} (h : cellEdge edge columns column c = true) :
    edge c = true ∧ Text.isBlank c = false := by
  simp only [cellEdge, Bool.and_eq_true, Bool.not_eq_true'] at h
  exact ⟨h.1.2, h.2⟩

lemma Dressed.eq_of_cellEdge {columns column : ℕ} (hcolumn : column + 1 ≠ columns) {cs ds : Chars}
    (h : Dressed (cellEdge edge columns column) cs ds) : cs = ds := by
  refine (h.mono fun c hc => ?_).eq_of_bare
  simp [cellEdge, hcolumn] at hc

/-- The rows have as many columns, and the columns but the last are as wide. -/
theorem Dressed.tableLines {separator : Chars} (hsep : escapeChar ∉ separator)
    {rows rows' : List (List Chars)} (hcount : columnCount rows = columnCount rows')
    (h : List.Forall₂ (fun row row' => ∀ column,
      Dressed (cellEdge edge (columnCount rows') column) (row.getD column [])
        (row'.getD column [])) rows rows') :
    List.Forall₂ (Dressed edge) (tableLines separator rows) (tableLines separator rows') := by
  have hwidth {column : ℕ} (hcolumn : column + 1 ≠ columnCount rows') :
      columnWidth rows column = columnWidth rows' column := by
    have hlengths : List.Forall₂ (· = ·) (rows.map fun row => (row.getD column []).length)
        (rows'.map fun row => (row.getD column []).length) := by
      rw [List.forall₂_map_left_iff, List.forall₂_map_right_iff]
      exact h.imp fun row row' hrow => congrArg List.length ((hrow column).eq_of_cellEdge hcolumn)
    rw [List.forall₂_eq_eq_eq] at hlengths
    rw [columnWidth, columnWidth, hlengths]
  rw [Layout.tableLines, Layout.tableLines, List.forall₂_map_left_iff, List.forall₂_map_right_iff]
  refine h.imp fun row row' hrow => ?_
  rw [columnWidths, columnWidths, hcount]
  cases hcolumns : columnCount rows' with
  | zero => exact .nil
  | succ last =>
    rw [hcolumns] at hrow hwidth
    -- The cells before the last column are bare, so they are padded alike.
    have hbefore : ∀ column ∈ List.range last,
        Dressed (cellEdge edge (last + 1) last)
          (Layout.padRight (columnWidth rows column) (row.getD column []) ++ separator)
          (Layout.padRight (columnWidth rows' column) (row'.getD column []) ++ separator) := by
      intro column hmem
      have hcolumn : column + 1 ≠ last + 1 := by
        have := List.mem_range.1 hmem
        omega
      have hcell := hrow column
      have hequal := hcell.eq_of_cellEdge hcolumn
      have hbare : escapeChar ∉ row'.getD column [] := hcell.escape_notMem
      rw [hwidth hcolumn, hequal]
      exact ((refl hbare).padRight _ rfl).append (refl hsep)
    have hline := (flatMap hbefore).append (hrow last)
    rw [tableLine_eq, tableLine_eq]
    exact (hline.stripEnd fun c hc => (cellEdge_le hc).2).mono fun c hc => (cellEdge_le hc).1

end Interchange.Layout
