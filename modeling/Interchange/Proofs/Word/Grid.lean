import Interchange.Proofs.Word.Reach

/-!
# Cells in their places

The cells of a row are looked at once for each column, and their text is told the first time. So
every cell that holds content itself is told once, in its order; a cell that continues another one
tells the text of that one in addition.
-/
namespace Interchange.Word

open Markup (Element)
open Text (Keeps letters)

namespace Body

/-- The text of the paragraphs directly in a cell. -/
def cellText (cell : Element) : List Char :=
  (cell.named (w "p")).flatMap fun p => (Section.paragraphText p).toList

/-- The text of cells, each the first time that its place comes up. -/
def placedText (seen : List GridPlace) : List PlacedCell → List Char
  | [] => []
  | ⟨place, element⟩ :: others =>
    if place ∈ seen then placedText seen others
    else cellText element ++ placedText (place :: seen) others

/-- Some cells, each the first time that its place comes up. -/
def firstPlaced (seen : List GridPlace) : List PlacedCell → List PlacedCell
  | [] => []
  | cell :: others =>
    if cell.place ∈ seen then firstPlaced seen others
    else cell :: firstPlaced (cell.place :: seen) others

lemma placedText_eq_flatMap (seen : List GridPlace) (placed : List PlacedCell) :
    placedText seen placed = (firstPlaced seen placed).flatMap fun cell => cellText cell.element := by
  induction placed generalizing seen with
  | nil => rfl
  | cons cell others ih =>
    rw [placedText, firstPlaced]
    split
    · exact ih seen
    · rw [ih, List.flatMap_cons]

lemma firstPlaced_sublist (seen : List GridPlace) (placed : List PlacedCell) :
    (firstPlaced seen placed).Sublist placed := by
  induction placed generalizing seen with
  | nil => exact .slnil
  | cons cell others ih =>
    rw [firstPlaced]
    split
    · exact (ih seen).cons cell
    · exact (ih _).cons_cons cell

lemma notMem_of_mem_firstPlaced {seen : List GridPlace} {placed : List PlacedCell}
    {cell : PlacedCell} (h : cell ∈ firstPlaced seen placed) : cell.place ∉ seen := by
  induction placed generalizing seen with
  | nil => cases h
  | cons first others ih =>
    rw [firstPlaced] at h
    split at h
    · exact ih h
    · next hnew =>
      rcases List.mem_cons.1 h with rfl | h
      · exact hnew
      · exact fun hseen => ih h (List.mem_cons_of_mem _ hseen)

lemma nodup_firstPlaced (seen : List GridPlace) (placed : List PlacedCell) :
    ((firstPlaced seen placed).map PlacedCell.place).Nodup := by
  induction placed generalizing seen with
  | nil => exact .nil
  | cons cell others ih =>
    rw [firstPlaced]
    split
    · exact ih seen
    · rw [List.map_cons, List.nodup_cons]
      refine ⟨fun hmem => ?_, ih _⟩
      obtain ⟨other, hother, hplace⟩ := List.mem_map.1 hmem
      exact notMem_of_mem_firstPlaced hother (hplace ▸ List.mem_cons_self)

lemma exists_mem_firstPlaced {seen : List GridPlace} {placed : List PlacedCell} {cell : PlacedCell}
    (h : cell ∈ placed) (hnew : cell.place ∉ seen) :
    ∃ first ∈ firstPlaced seen placed, first.place = cell.place := by
  induction placed generalizing seen with
  | nil => cases h
  | cons other others ih =>
    rw [firstPlaced]
    split
    · next hseen =>
      rcases List.mem_cons.1 h with rfl | h
      · exact absurd hseen hnew
      · exact ih h hnew
    · by_cases hsame : cell.place = other.place
      · exact ⟨other, List.mem_cons_self, hsame.symm⟩
      · rcases List.mem_cons.1 h with rfl | h
        · exact absurd rfl hsame
        · have hother : cell.place ∉ other.place :: seen :=
            fun hmem => (List.mem_cons.1 hmem).elim hsame hnew
          obtain ⟨first, hfirst, hplace⟩ := ih h hother
          exact ⟨first, List.mem_cons_of_mem _ hfirst, hplace⟩

variable {seen : List GridPlace} {rest : List PlacedCell}

/-- Some cells before others tell something, and their places are seen then. -/
lemma placedText_append (seen : List GridPlace) (cells : List PlacedCell) : ∃ told seen',
    placedText seen (cells ++ rest) = told ++ placedText seen' rest ∧
      ∀ place ∈ seen', place ∈ seen ∨ ∃ cell ∈ cells, cell.place = place := by
  induction cells generalizing seen with
  | nil => exact ⟨[], seen, rfl, fun place hplace => .inl hplace⟩
  | cons cell cells ih =>
    obtain ⟨place, element⟩ := cell
    rw [List.cons_append, placedText]
    split
    · obtain ⟨told, seen', htold, hseen⟩ := ih seen
      refine ⟨told, seen', htold, fun p hp => (hseen p hp).imp_right ?_⟩
      rintro ⟨cell, hcell, hplace⟩
      exact ⟨cell, List.mem_cons_of_mem _ hcell, hplace⟩
    · obtain ⟨told, seen', htold, hseen⟩ := ih (place :: seen)
      refine ⟨cellText element ++ told, seen', by rw [htold, List.append_assoc], fun p hp => ?_⟩
      rcases hseen p hp with hmem | ⟨cell, hcell, hplace⟩
      · rcases List.mem_cons.1 hmem with rfl | hmem
        · exact .inr ⟨⟨p, element⟩, List.mem_cons_self, rfl⟩
        · exact .inl hmem
      · exact .inr ⟨cell, List.mem_cons_of_mem _ hcell, hplace⟩

lemma placedText_replicate (n : ℕ) {cell : PlacedCell} (h : cell.place ∈ seen) :
    placedText seen (List.replicate n cell ++ rest) = placedText seen rest := by
  induction n with
  | zero => rfl
  | succ n ih => rw [List.replicate_succ, List.cons_append, placedText, if_pos h, ih]

/-- A cell that takes up columns tells its text once. -/
lemma placedText_replicate_succ (n : ℕ) {cell : PlacedCell} (h : cell.place ∉ seen) :
    placedText seen (List.replicate (n + 1) cell ++ rest) =
      cellText cell.element ++ placedText (cell.place :: seen) rest := by
  rw [List.replicate_succ, List.cons_append, placedText, if_neg h,
    placedText_replicate n List.mem_cons_self]

end Body

/-- The places that are found for a cell: further up if it continues another one, else its own, once
for each column. -/
def IsPlaced (up index : ℕ) (cell : GridCell) (placed : List PlacedCell) : Prop :=
  if cell.continues then ∀ other ∈ placed, up < other.place.up
  else ∃ span, cell.span = some span ∧
    placed = List.replicate span.toNat ⟨⟨up, index⟩, cell.element⟩

lemma IsPlaced.le_up {up index : ℕ} {cell : GridCell} {placed : List PlacedCell}
    (h : IsPlaced up index cell placed) : ∀ other ∈ placed, up ≤ other.place.up := by
  rw [IsPlaced] at h
  intro other hother
  split at h
  · exact Nat.le_of_lt (h other hother)
  · obtain ⟨span, -, rfl⟩ := h
    rw [List.eq_of_mem_replicate hother]

/-- The induction goes up the rows; what is found for a cell of an upper row is not below it. -/
lemma isPlaced_of_placed? {up index : ℕ} {row : GridRow} {above : List GridRow}
    {placed : List PlacedCell} (h : row.placed? up above index = some placed) :
    ∃ cell, row.cells[index]? = some cell ∧ IsPlaced up index cell placed := by
  induction above generalizing up index row with
  | nil =>
    rw [GridRow.placed?] at h
    obtain ⟨cell, hcell, h⟩ := Option.bind_eq_some_iff.1 h
    refine ⟨cell, hcell, ?_⟩
    rw [IsPlaced]
    split at h
    · simp at h
    · next hown =>
      obtain ⟨span, hspan, h⟩ := Option.bind_eq_some_iff.1 h
      rw [if_neg hown]
      exact ⟨span, hspan, (Option.some.inj h).symm⟩
  | cons upper further ih =>
    rw [GridRow.placed?] at h
    obtain ⟨cell, hcell, h⟩ := Option.bind_eq_some_iff.1 h
    refine ⟨cell, hcell, ?_⟩
    rw [IsPlaced]
    split at h
    · next hcontinues =>
      obtain ⟨offset, -, h⟩ := Option.bind_eq_some_iff.1 h
      obtain ⟨index, -, h⟩ := Option.bind_eq_some_iff.1 h
      obtain ⟨cell, -, hplaced⟩ := ih h
      rw [if_pos hcontinues]
      exact hplaced.le_up
    · next hown =>
      obtain ⟨span, hspan, h⟩ := Option.bind_eq_some_iff.1 h
      rw [if_neg hown]
      exact ⟨span, hspan, (Option.some.inj h).symm⟩

lemma forall₂_of_mapM {α β : Type} {f : α → Option β} {items : List α} {results : List β}
    (h : items.mapM f = some results) : List.Forall₂ (fun a b => f a = some b) items results := by
  induction items generalizing results with
  | nil =>
    obtain rfl : [] = results := by simpa using h
    exact .nil
  | cons a items ih =>
    rw [List.mapM_cons] at h
    obtain ⟨b, hb, h⟩ := Option.bind_eq_some_iff.1 h
    obtain ⟨bs, hbs, h⟩ := Option.bind_eq_some_iff.1 h
    rw [← Option.some.inj h]
    exact .cons hb (ih hbs)

/-- The places of the cells of a row, cell by cell. -/
lemma forall₂_of_placedCells? {row : Element} {above : List GridRow} {placed : List PlacedCell}
    (h : (GridRow.ofElement row).placedCells? above = some placed) :
    ∃ parts, placed = parts.flatten ∧
      List.Forall₂ (fun cell part => IsPlaced 0 cell.2 (GridCell.ofElement cell.1) part)
        (row.named (w "tc")).zipIdx parts := by
  obtain ⟨parts, hparts, h⟩ := Option.bind_eq_some_iff.1 h
  refine ⟨parts, (Option.some.inj h).symm, ?_⟩
  have hcells : (GridRow.ofElement row).cells = (row.named (w "tc")).map .ofElement := rfl
  have hindices : List.range (GridRow.ofElement row).cells.length =
      (row.named (w "tc")).zipIdx.map Prod.snd := by
    rw [hcells, List.length_map, List.zipIdx_map_snd, List.range_eq_range']
  rw [hindices] at hparts
  have hplaced := List.forall₂_map_left_iff.1 (forall₂_of_mapM hparts)
  have hmem : ∀ cell ∈ (row.named (w "tc")).zipIdx, (row.named (w "tc"))[cell.2]? = some cell.1 :=
    fun cell hcell => List.mem_zipIdx_iff_getElem?.1 hcell
  refine ((List.forall₂_and_left _ _).2 ⟨hmem, hplaced⟩).imp ?_
  rintro ⟨element, index⟩ part ⟨helement, hpart⟩
  obtain ⟨cell, hcell, his⟩ := isPlaced_of_placed? hpart
  have hequal : (GridRow.ofElement row).cells[index]? = some (GridCell.ofElement element) := by
    rw [hcells, List.getElem?_map, helement]
    rfl
  rw [hcell] at hequal
  rwa [Option.some.inj hequal] at his

lemma tells_cell (cell : Element) :
    Tells cell ((cell.named (w "p")).flatMap Reach.paragraph) (Body.cellText cell) :=
  .named fun p _ => Inline.tells_paragraph p

/-- The induction is on the cells that are left; none of their places has been seen. -/
theorem tells_placed {element : Element} {cells : List Element} {parts : List (List PlacedCell)}
    {index : ℕ} {seen : List GridPlace}
    (hself : ∀ c ∈ cells, StandsForItself element → StandsForItself c ∧ c.name = w "tc")
    (hparts : List.Forall₂ (fun cell part => IsPlaced 0 cell.2 (GridCell.ofElement cell.1) part)
      (cells.zipIdx index) parts)
    (hseen : ∀ place ∈ seen, place.up = 0 → place.index < index) :
    Tells element (cells.flatMap Reach.cell) (Body.placedText seen parts.flatten) := by
  induction cells generalizing parts index seen with
  | nil =>
    cases hparts
    exact .refl element []
  | cons cell cells ih =>
    rw [List.zipIdx_cons] at hparts
    cases hparts with
    | cons hplaced hrest =>
      rename_i part parts
      obtain ⟨hcell, hothers⟩ := List.forall_mem_cons.1 hself
      rw [List.flatMap_cons, List.flatten_cons]
      rw [IsPlaced] at hplaced
      split at hplaced
      · next hcontinues =>
        -- Nothing is within reach here; the text of the cell further up is told in addition.
        have hreach : Reach.cell cell = [] := by simp [Reach.cell, Reach.holdsContent, hcontinues]
        obtain ⟨told, seen', htold, hseen'⟩ := Body.placedText_append seen part
        have hmore : Tells element [] told := by
          refine ⟨.nil told, fun helement => ?_⟩
          obtain ⟨hitself, hname⟩ := hcell helement
          have hown := (hitself cell List.mem_cons_self).2 hname
          rw [hcontinues] at hown
          cases hown
        rw [hreach, htold]
        refine hmore.append (ih hothers hrest fun place hplace hup => ?_)
        rcases hseen' place hplace with hmem | ⟨other, hother, rfl⟩
        · exact Nat.lt_succ_of_lt (hseen place hmem hup)
        · exact absurd hup (Nat.ne_of_gt (hplaced other hother))
      · next hown =>
        obtain ⟨span, hspan, rfl⟩ := hplaced
        cases hcolumns : span.toNat with
        | zero =>
          -- A cell that takes up no column is never looked at.
          have hnone : ¬0 < span := by omega
          have hreach : Reach.cell cell = [] := by
            simp [Reach.cell, Reach.holdsContent, hspan, hnone]
          rw [hreach]
          exact ih hothers hrest fun place hplace hup => Nat.lt_succ_of_lt (hseen place hplace hup)
        | succ n =>
          have hsome : 0 < span := by omega
          have hreach : Reach.cell cell = (cell.named (w "p")).flatMap Reach.paragraph := by
            simp [Reach.cell, Reach.holdsContent, hspan, hsome, hown]
          -- Cells further up have other places, so this one is seen for the first time.
          have hnew : (⟨0, index⟩ : GridPlace) ∉ seen := fun hmem =>
            Nat.lt_irrefl index (hseen _ hmem rfl)
          have hfirst := (tells_cell cell).of_part fun helement => (hcell helement).1
          rw [hreach, Body.placedText_replicate_succ n hnew]
          refine hfirst.append (ih hothers hrest fun place hplace hup => ?_)
          rcases List.mem_cons.1 hplace with rfl | hmem
          · exact Nat.lt_succ_self index
          · exact Nat.lt_succ_of_lt (hseen place hmem hup)

/-- Each row with the rows above it, from the bottom up. -/
def upwards (above : List GridRow) : List GridRow → List (List GridRow)
  | [] => []
  | row :: others => (row :: above) :: upwards (row :: above) others

@[simp] lemma length_upwards (above others : List GridRow) :
    (upwards above others).length = others.length := by
  induction others generalizing above with
  | nil => rfl
  | cons row others ih => rw [upwards, List.length_cons, ih, List.length_cons]

lemma getElem?_upwards (above : List GridRow) {others : List GridRow} {r : ℕ}
    (h : r < others.length) :
    (upwards above others)[r]? = some ((others.take (r + 1)).reverse ++ above) := by
  induction others generalizing above r with
  | nil => exact absurd h (Nat.not_lt_zero r)
  | cons row others ih =>
    cases r with
    | zero => rfl
    | succ r =>
      rw [upwards, List.getElem?_cons_succ, ih _ (Nat.lt_of_succ_lt_succ h), List.take_succ_cons,
        List.reverse_cons, List.append_assoc]
      rfl

/-- The cells in the columns of the lowest of some rows. -/
def placedIn? : List GridRow → Option (List PlacedCell)
  | [] => none
  | row :: above => row.placedCells? above

/-- Whether the place of a cell comes up again in the lowest of some rows. -/
def Repeats (rows : List GridRow) : Prop :=
  ∃ placed, placedIn? rows = some placed ∧ ¬(placed.map PlacedCell.place).Nodup

/-- The rows of a table. -/
def gridOf (table : Element) : List GridRow := (table.named (w "tr")).map .ofElement

/-- The cells of a row tell what the row has within reach. -/
theorem tells_row {row : Element} {above : List GridRow} {placed : List PlacedCell}
    (h : (GridRow.ofElement row).placedCells? above = some placed) :
    Tells row (Reach.row row) (Body.placedText [] placed) := by
  obtain ⟨parts, rfl, hparts⟩ := forall₂_of_placedCells? h
  refine tells_placed (fun cell hcell hself => ⟨hself.named hcell, ?_⟩) hparts (by simp)
  simpa using (List.mem_filter.1 hcell).2

end Interchange.Word
