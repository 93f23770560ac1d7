import Interchange.Proofs.Word.Grouping
import Interchange.Proofs.Word.Noting

/-!
# Merged cells

A cell stands for itself, or for the cell above it when it continues that one. The reader tells a
cell in each row with a cell that stands for it, once in each. So a cell is told once in its table
exactly when it takes up columns, continues no other cell and no cell of another row stands for it.
That cells were merged is reported only where one comes up again within a row.
-/
namespace Interchange.Word

open Finding Node
open Markup (Element)
open Text (letters)

/-- A cell by its row in the table and its index there. -/
structure CellAddress where
  row : ℕ
  index : ℕ
deriving DecidableEq

def cellAt? (grid : List GridRow) (address : CellAddress) : Option GridCell :=
  grid[address.row]?.bind (·.cells[address.index]?)

/-- The number of columns that a cell takes up. -/
def columnsOf (grid : List GridRow) (address : CellAddress) : ℕ :=
  ((cellAt? grid address).bind (·.span)).elim 0 Int.toNat

/-- The text of a node is that of the cell at an address. -/
def TellsCell (grid : List GridRow) (address : CellAddress) (node : Node) : Prop :=
  ∃ cell, cellAt? grid address = some cell ∧
    letters node.textContent.toList = letters (Body.cellText cell.element)

/-- A row of a table and the rows above it, from the bottom up. -/
def upwardFrom (grid : List GridRow) (r : ℕ) : List GridRow := (grid.take (r + 1)).reverse

/-- The cell that a cell of the lowest of some rows stands for. -/
def rootOf? : List GridRow → ℕ → Option CellAddress
  | [], _ => none
  | row :: above, index => do
    let cell ← row.cells[index]?
    if cell.continues then
      let upper ← above.head?
      let offset ← row.offset? index
      let index ← upper.indexAt? offset
      rootOf? above index
    else some ⟨above.length, index⟩

/-- Whether a cell is found in the columns of a row. -/
def ComesUp (grid : List GridRow) (r : ℕ) (address : CellAddress) : Prop :=
  0 < columnsOf grid address ∧ ∃ index, rootOf? (upwardFrom grid r) index = some address

/-- Whether a cell is found in several columns of a row: it takes up several, or several cells of
the row stand for it. -/
def ComesUpAgain (grid : List GridRow) (r : ℕ) (address : CellAddress) : Prop :=
  ∃ index, rootOf? (upwardFrom grid r) index = some address ∧
    (2 ≤ columnsOf grid address ∨ 0 < columnsOf grid address ∧
      ∃ other ≠ index, rootOf? (upwardFrom grid r) other = some address)

section

variable {grid rows above : List GridRow} {row : GridRow} {address : CellAddress} {cell : GridCell}

lemma cellAt?_mono (h : rows <+: grid) (hcell : cellAt? rows address = some cell) :
    cellAt? grid address = some cell := by
  obtain ⟨later, rfl⟩ := h
  obtain ⟨row, hrow, hcell⟩ := Option.bind_eq_some_iff.1 hcell
  have hlt := (List.getElem?_eq_some_iff.1 hrow).1
  refine Option.bind_eq_some_iff.2 ⟨row, ?_, hcell⟩
  rw [List.getElem?_append_left hlt, hrow]

lemma columnsOf_of_cellAt? (h : cellAt? grid address = some cell) :
    columnsOf grid address = cell.span.elim 0 Int.toNat := by
  rw [columnsOf, h, Option.bind_some]

lemma rootOf?_own {index : ℕ} (above : List GridRow) (hcell : row.cells[index]? = some cell)
    (hown : ¬cell.continues = true) :
    rootOf? (row :: above) index = some ⟨above.length, index⟩ := by
  rw [rootOf?, hcell, Option.bind_eq_bind, Option.bind_some, if_neg hown]

lemma cellAt?_lowest (row : GridRow) (above : List GridRow) (index : ℕ) :
    cellAt? (row :: above).reverse ⟨above.length, index⟩ = row.cells[index]? := by
  have hrow : (row :: above).reverse[above.length]? = some row := by
    rw [List.reverse_cons, List.getElem?_append_right (by simp)]
    simp
  rw [cellAt?, hrow, Option.bind_some]

/-- The cell that another one stands for is in the same table, and continues none itself. -/
lemma exists_of_rootOf? {index : ℕ} (h : rootOf? rows index = some address) :
    address.row < rows.length ∧
      ∃ cell, cellAt? rows.reverse address = some cell ∧ cell.continues = false := by
  induction rows generalizing index with
  | nil => cases h
  | cons row above ih =>
    rw [rootOf?] at h
    obtain ⟨cell, hcell, h⟩ := Option.bind_eq_some_iff.1 h
    split at h
    · obtain ⟨upper, -, h⟩ := Option.bind_eq_some_iff.1 h
      obtain ⟨offset, -, h⟩ := Option.bind_eq_some_iff.1 h
      obtain ⟨place, -, h⟩ := Option.bind_eq_some_iff.1 h
      obtain ⟨hrow, found, hfound, hown⟩ := ih h
      refine ⟨Nat.lt_succ_of_lt hrow, found, ?_, hown⟩
      exact cellAt?_mono (List.reverse_cons ▸ List.prefix_append _ _) hfound
    · next hown =>
      obtain rfl := Option.some.inj h
      refine ⟨Nat.lt_succ_self _, cell, ?_, by simpa using hown⟩
      rw [cellAt?_lowest]
      exact hcell

/-- A cell that continues none stands for itself. -/
lemma rootOf?_of_own (hcell : cellAt? grid address = some cell) (hown : cell.continues = false) :
    rootOf? (upwardFrom grid address.row) address.index = some address := by
  obtain ⟨row, hrow, hcell⟩ := Option.bind_eq_some_iff.1 hcell
  obtain ⟨hlt, hget⟩ := List.getElem?_eq_some_iff.1 hrow
  have hrows : upwardFrom grid address.row = row :: (grid.take address.row).reverse := by
    rw [upwardFrom, ← List.take_append_getElem hlt, hget, List.reverse_append]
    rfl
  have hlength : (grid.take address.row).reverse.length = address.row := by
    rw [List.length_reverse, List.length_take, Nat.min_eq_left hlt.le]
  rw [hrows, rootOf?_own _ hcell (by simp [hown]), hlength]

def elementAt (grid : List GridRow) (address : CellAddress) : Element :=
  (cellAt? grid address).elim default (·.element)

/-- What is placed for a cell in each of its columns, in its own row or further down. -/
def placedAt (grid : List GridRow) (r : ℕ) (address : CellAddress) : PlacedCell :=
  ⟨⟨r - address.row, address.index⟩, elementAt grid address⟩

/-- The address of what has a place in a row. -/
def addressOf (r : ℕ) (place : GridPlace) : CellAddress := ⟨r - place.up, place.index⟩

lemma addressOf_place {r : ℕ} (h : address.row ≤ r) :
    addressOf r (placedAt grid r address).place = address :=
  congrArg (CellAddress.mk · address.index) (Nat.sub_sub_self h)

lemma exists_root_of_own {up index : ℕ} {span : Int} (hcell : row.cells[index]? = some cell)
    (hown : ¬cell.continues = true) (hspan : cell.span = some span) :
    ∃ address, rootOf? (row :: above) index = some address ∧
      List.replicate span.toNat ⟨⟨up, index⟩, cell.element⟩ =
        List.replicate (columnsOf (row :: above).reverse address)
          (placedAt (row :: above).reverse (up + above.length) address) := by
  have hfound := (cellAt?_lowest row above index).trans hcell
  refine ⟨⟨above.length, index⟩, rootOf?_own above hcell hown, ?_⟩
  rw [columnsOf_of_cellAt? hfound, hspan, placedAt, elementAt, hfound, Nat.add_sub_cancel]
  rfl

/-- What is placed for a cell is the cell that it stands for, once for each column. The induction
goes up the rows; the cell that is found there has the same address in the longer table. -/
lemma exists_root_of_placed? {up index : ℕ} {placed : List PlacedCell}
    (h : row.placed? up above index = some placed) :
    ∃ address, rootOf? (row :: above) index = some address ∧
      placed = List.replicate (columnsOf (row :: above).reverse address)
        (placedAt (row :: above).reverse (up + above.length) address) := by
  induction above generalizing up index row with
  | nil =>
    rw [GridRow.placed?] at h
    obtain ⟨cell, hcell, h⟩ := Option.bind_eq_some_iff.1 h
    split at h
    · simp at h
    · next hcontinues =>
      obtain ⟨span, hspan, h⟩ := Option.bind_eq_some_iff.1 h
      rw [← Option.some.inj h]
      exact exists_root_of_own hcell hcontinues hspan
  | cons upper further ih =>
    rw [GridRow.placed?] at h
    obtain ⟨cell, hcell, h⟩ := Option.bind_eq_some_iff.1 h
    split at h
    · next hcontinues =>
      obtain ⟨offset, hoffset, h⟩ := Option.bind_eq_some_iff.1 h
      obtain ⟨place, hplace, h⟩ := Option.bind_eq_some_iff.1 h
      obtain ⟨address, hroot, hplaced⟩ := ih h
      obtain ⟨-, found, hfound, -⟩ := exists_of_rootOf? hroot
      have hlonger : (upper :: further).reverse <+: (row :: upper :: further).reverse := by
        rw [List.reverse_cons (a := row)]
        exact List.prefix_append _ _
      have hwhole := cellAt?_mono hlonger hfound
      refine ⟨address, ?_, ?_⟩
      · rw [rootOf?, hcell, Option.bind_eq_bind, Option.bind_some, if_pos hcontinues,
          List.head?_cons, Option.bind_eq_bind, Option.bind_some, hoffset, Option.bind_eq_bind,
          Option.bind_some, hplace]
        exact hroot
      · rw [hplaced, columnsOf_of_cellAt? hfound, columnsOf_of_cellAt? hwhole, placedAt, placedAt,
          elementAt, elementAt, hfound, hwhole, List.length_cons, Nat.add_assoc, Nat.add_comm 1]
    · next hcontinues =>
      obtain ⟨span, hspan, h⟩ := Option.bind_eq_some_iff.1 h
      rw [← Option.some.inj h]
      exact exists_root_of_own hcell hcontinues hspan

/-- The places of a cell in the lowest of some rows, one for each column. -/
def placesOf (rows : List GridRow) (address : CellAddress) : List GridPlace :=
  List.replicate (columnsOf rows.reverse address)
    (placedAt rows.reverse (rows.length - 1) address).place

/-- The cells that the cells of a row stand for, one by one, and what is placed for them. -/
structure Stand (rows : List GridRow) (roots : List CellAddress) (placed : List PlacedCell) :
    Prop where
  root_iff : ∀ index address, rootOf? rows index = some address ↔ roots[index]? = some address
  placed_eq : placed = roots.flatMap fun address =>
    List.replicate (columnsOf rows.reverse address) (placedAt rows.reverse (rows.length - 1) address)

/-- What is related step by step is related by way of what stands between. -/
lemma exists_forall₂_of_comp {α β γ : Type} {R : α → γ → Prop} {S : γ → β → Prop} {items : List α}
    {results : List β} (h : List.Forall₂ (fun a b => ∃ c, R a c ∧ S c b) items results) :
    ∃ found, List.Forall₂ R items found ∧ List.Forall₂ S found results := by
  induction h with
  | nil => exact ⟨[], .nil, .nil⟩
  | cons hfirst _ ih =>
    obtain ⟨c, hc, hresult⟩ := hfirst
    obtain ⟨found, hfound, hresults⟩ := ih
    exact ⟨c :: found, .cons hc hfound, .cons hresult hresults⟩

lemma exists_stand {placed : List PlacedCell} (h : placedIn? rows = some placed) :
    ∃ roots, Stand rows roots placed := by
  cases rows with
  | nil => cases h
  | cons row above =>
    obtain ⟨parts, hparts, h⟩ := Option.bind_eq_some_iff.1 h
    obtain rfl : parts.flatten = placed := Option.some.inj h
    have hplaced := (forall₂_of_mapM hparts).imp fun index part hpart =>
      exists_root_of_placed? hpart
    obtain ⟨roots, hroots, hfound⟩ := exists_forall₂_of_comp hplaced
    obtain ⟨hlength, hget⟩ := List.forall₂_iff_get.1 hroots
    rw [List.length_range] at hlength
    refine ⟨roots, fun index address => ?_, ?_⟩
    · by_cases hindex : index < row.cells.length
      · have hroot := hget index (by simpa using hindex) (hlength ▸ hindex)
        rw [List.get_eq_getElem, List.getElem_range] at hroot
        rw [hroot, List.getElem?_eq_getElem (hlength ▸ hindex)]
        rfl
      · have hcell : row.cells[index]? = none := List.getElem?_eq_none (Nat.not_lt.1 hindex)
        have hnone : roots[index]? = none := List.getElem?_eq_none (hlength ▸ Nat.not_lt.1 hindex)
        rw [rootOf?, hcell, hnone]
        rfl
    · have hmade := List.forall₂_map_left_iff.2 (hfound.imp fun _ _ hpart => hpart.symm)
      rw [List.forall₂_eq_eq_eq] at hmade
      rw [← hmade, List.flatMap_def, List.length_cons, Nat.add_sub_cancel]
      simp only [Nat.zero_add]

namespace Stand

variable {roots : List CellAddress} {placed : List PlacedCell}

lemma mem_roots_iff (h : Stand rows roots placed) :
    address ∈ roots ↔ ∃ index, rootOf? rows index = some address := by
  simp only [List.mem_iff_getElem?, h.root_iff]

lemma mem_placed_iff (h : Stand rows roots placed) {found : PlacedCell} : found ∈ placed ↔
    ∃ address ∈ roots, 0 < columnsOf rows.reverse address ∧
      found = placedAt rows.reverse (rows.length - 1) address := by
  rw [h.placed_eq, List.mem_flatMap]
  simp only [List.mem_replicate, Nat.pos_iff_ne_zero]

lemma row_le (h : Stand rows roots placed) (haddress : address ∈ roots) :
    address.row ≤ rows.length - 1 := by
  obtain ⟨index, hindex⟩ := h.mem_roots_iff.1 haddress
  exact Nat.le_sub_one_of_lt (exists_of_rootOf? hindex).1

/-- The places of two cells in a row have nothing in common, unless it is one cell. -/
lemma disjoint_iff (h : Stand rows roots placed) {other : CellAddress} (haddress : address ∈ roots)
    (hother : other ∈ roots) : (placesOf rows address).Disjoint (placesOf rows other) ↔
      ¬(0 < columnsOf rows.reverse address ∧ address = other) := by
  constructor
  · rintro hdisjoint ⟨hsome, rfl⟩
    have hmem : (placedAt rows.reverse (rows.length - 1) address).place ∈ placesOf rows address :=
      List.mem_replicate.2 ⟨hsome.ne', rfl⟩
    exact hdisjoint hmem hmem
  · intro hne place hplace hplace'
    obtain ⟨hsome, rfl⟩ := List.mem_replicate.1 hplace
    obtain ⟨-, hsame⟩ := List.mem_replicate.1 hplace'
    refine hne ⟨Nat.pos_of_ne_zero hsome, ?_⟩
    rw [← addressOf_place (h.row_le haddress), hsame, addressOf_place (h.row_le hother)]

/-- The place of a cell comes up again when the cell does. -/
theorem repeats_iff (h : Stand rows roots placed) : ¬(placed.map PlacedCell.place).Nodup ↔
    ∃ index address, rootOf? rows index = some address ∧
      (2 ≤ columnsOf rows.reverse address ∨ 0 < columnsOf rows.reverse address ∧
        ∃ other ≠ index, rootOf? rows other = some address) := by
  have hplaces : placed.map PlacedCell.place = roots.flatMap (placesOf rows) := by
    rw [h.placed_eq, List.map_flatMap]
    simp only [List.map_replicate]
    rfl
  rw [hplaces, List.nodup_flatMap, not_and_or]
  constructor
  · rintro (hmany | htwice)
    · simp only [not_forall] at hmany
      obtain ⟨address, hmem, hmany⟩ := hmany
      obtain ⟨index, hindex⟩ := h.mem_roots_iff.1 hmem
      rw [placesOf, List.nodup_replicate, not_le] at hmany
      exact ⟨index, address, hindex, .inl hmany⟩
    · rw [List.pairwise_iff_getElem] at htwice
      simp only [not_forall] at htwice
      obtain ⟨i, j, hi, hj, hij, hsame⟩ := htwice
      have hcell := (h.disjoint_iff (List.getElem_mem hi) (List.getElem_mem hj)).not.1 hsame
      obtain ⟨hsome, hequal⟩ := not_not.1 hcell
      refine ⟨i, roots[i], ?_, .inr ⟨hsome, j, hij.ne', ?_⟩⟩
      · exact (h.root_iff _ _).2 (List.getElem?_eq_getElem hi)
      · rw [hequal]
        exact (h.root_iff _ _).2 (List.getElem?_eq_getElem hj)
  · rintro ⟨index, address, hroot, hmany | ⟨hsome, other, hne, hother⟩⟩
    · refine .inl fun hall => ?_
      have hone := List.nodup_replicate.1 (hall address (h.mem_roots_iff.2 ⟨index, hroot⟩))
      exact absurd hmany (Nat.not_le.2 (Nat.lt_succ_of_le hone))
    · refine .inr fun hpair => ?_
      rw [List.pairwise_iff_getElem] at hpair
      obtain ⟨hi, hindex⟩ := List.getElem?_eq_some_iff.1 ((h.root_iff _ _).1 hroot)
      obtain ⟨hj, hagain⟩ := List.getElem?_eq_some_iff.1 ((h.root_iff _ _).1 hother)
      have hmem := h.mem_roots_iff.2 ⟨index, hroot⟩
      have hsame := (h.disjoint_iff hmem hmem).not.2 (not_not.2 ⟨hsome, rfl⟩)
      have hapart (i j : ℕ) (hi : i < roots.length) (hj : j < roots.length) (hij : i < j)
          (hfirst : roots[i] = address) : roots[j] ≠ address := by
        intro hsecond
        have hdisjoint := hpair i j hi hj hij
        rw [hfirst, hsecond] at hdisjoint
        exact hsame hdisjoint
      rcases Nat.lt_or_gt_of_ne hne with hlt | hlt
      · exact hapart _ _ hj hi hlt hagain hindex
      · exact hapart _ _ hi hj hlt hindex hagain

/-- The cells that are told in a row are those that come up there, each once. -/
theorem exists_told (h : Stand rows roots placed) {nodes : List Node}
    (hnodes : List.Forall₂ (fun cell node =>
      letters node.textContent.toList = letters (Body.cellText cell.element))
        (Body.firstPlaced [] placed) nodes) :
    ∃ told : List CellAddress, told.Nodup ∧
      (∀ address, address ∈ told ↔ 0 < columnsOf rows.reverse address ∧
        ∃ index, rootOf? rows index = some address) ∧
      List.Forall₂ (TellsCell rows.reverse) told nodes := by
  have hplaced {cell : PlacedCell} (hcell : cell ∈ Body.firstPlaced [] placed) :
      ∃ address ∈ roots, 0 < columnsOf rows.reverse address ∧
        cell = placedAt rows.reverse (rows.length - 1) address :=
    h.mem_placed_iff.1 ((Body.firstPlaced_sublist [] placed).subset hcell)
  refine ⟨(Body.firstPlaced [] placed).map fun cell => addressOf (rows.length - 1) cell.place,
    ?_, fun address => ⟨?_, ?_⟩, ?_⟩
  · -- Cells with one address have one place, and each place is there once.
    refine List.Nodup.map_on (fun cell hcell other hother haddress => ?_)
      (Body.nodup_firstPlaced [] placed).of_map
    obtain ⟨address, hroot, -, rfl⟩ := hplaced hcell
    obtain ⟨address', hroot', -, rfl⟩ := hplaced hother
    rw [addressOf_place (h.row_le hroot), addressOf_place (h.row_le hroot')] at haddress
    rw [haddress]
  · intro hmem
    obtain ⟨cell, hcell, rfl⟩ := List.mem_map.1 hmem
    obtain ⟨address, haddress, hsome, rfl⟩ := hplaced hcell
    rw [addressOf_place (h.row_le haddress)]
    exact ⟨hsome, h.mem_roots_iff.1 haddress⟩
  · rintro ⟨hsome, hroot⟩
    have haddress := h.mem_roots_iff.2 hroot
    have hcell := h.mem_placed_iff.2 ⟨address, haddress, hsome, rfl⟩
    obtain ⟨first, hfirst, hplace⟩ := Body.exists_mem_firstPlaced hcell List.not_mem_nil
    refine List.mem_map.2 ⟨first, hfirst, ?_⟩
    rw [hplace, addressOf_place (h.row_le haddress)]
  · rw [List.forall₂_map_left_iff]
    refine ((List.forall₂_and_left _ _).2 ⟨fun _ => hplaced, hnodes⟩).imp ?_
    rintro cell node ⟨⟨address, haddress, -, rfl⟩, htext⟩
    obtain ⟨index, hindex⟩ := h.mem_roots_iff.1 haddress
    obtain ⟨-, found, hfound, -⟩ := exists_of_rootOf? hindex
    rw [addressOf_place (h.row_le haddress)]
    refine ⟨found, hfound, ?_⟩
    rw [htext, placedAt, elementAt, hfound]
    rfl

end Stand

end

/-- What is told in the rows of a table: in each row the cells that come up there, each once. -/
structure TellsCells (grid : List GridRow) (told : List (List CellAddress)) (rows : List Node) :
    Prop where
  length_eq : told.length = grid.length
  nodup : ∀ addresses ∈ told, addresses.Nodup
  mem_iff : ∀ r addresses, told[r]? = some addresses →
    ∀ address, address ∈ addresses ↔ ComesUp grid r address
  texts : List.Forall₂ (fun addresses row => List.Forall₂ (TellsCell grid) addresses row.children)
    told rows

/-- What a row is made of: what is placed in it, each the first time that its place comes up. -/
def IsPlacedRow (up : List GridRow) (row : Node) : Prop :=
  ∃ placed, placedIn? up = some placed ∧ List.Forall₂ (fun cell node =>
    letters node.textContent.toList = letters (Body.cellText cell.element))
      (Body.firstPlaced [] placed) row.children

section

variable {grid : List GridRow}

lemma columnsOf_of_rootOf? {up : List GridRow} {index : ℕ} {address : CellAddress}
    (h : up.reverse <+: grid) (hroot : rootOf? up index = some address) :
    columnsOf up.reverse address = columnsOf grid address := by
  obtain ⟨-, cell, hcell, -⟩ := exists_of_rootOf? hroot
  rw [columnsOf_of_cellAt? hcell, columnsOf_of_cellAt? (cellAt?_mono h hcell)]

lemma isPrefix_reverse_upwardFrom (grid : List GridRow) (r : ℕ) :
    (upwardFrom grid r).reverse <+: grid := by
  rw [upwardFrom, List.reverse_reverse]
  exact List.take_prefix _ _

lemma upwards_nil (grid : List GridRow) :
    upwards [] grid = (List.range grid.length).map (upwardFrom grid) := by
  refine List.ext_getElem? fun r => ?_
  by_cases h : r < grid.length
  · rw [getElem?_upwards [] h, List.append_nil, List.getElem?_map, List.getElem?_range h]
    rfl
  · have hlength := Nat.not_lt.1 h
    rw [List.getElem?_eq_none (by simpa using hlength), List.getElem?_eq_none (by simpa using hlength)]

/-- The place of a cell comes up again in a row when the cell does. -/
lemma repeats_upwardFrom_iff {r : ℕ} {row : Node} (h : IsPlacedRow (upwardFrom grid r) row) :
    Repeats (upwardFrom grid r) ↔ ∃ address, ComesUpAgain grid r address := by
  obtain ⟨placed, hplaced, -⟩ := h
  obtain ⟨roots, hstand⟩ := exists_stand hplaced
  have hcolumns {index : ℕ} {address : CellAddress}
      (hroot : rootOf? (upwardFrom grid r) index = some address) :=
    columnsOf_of_rootOf? (isPrefix_reverse_upwardFrom grid r) hroot
  have hrepeats : Repeats (upwardFrom grid r) ↔ ¬(placed.map PlacedCell.place).Nodup := by
    simp [Repeats, hplaced]
  rw [hrepeats, hstand.repeats_iff, exists_comm]
  refine exists_congr fun address => exists_congr fun index => and_congr_right fun hroot => ?_
  rw [hcolumns hroot]

/-- In a row of a table the cells that come up there are told. -/
lemma exists_told_of_isPlacedRow {r : ℕ} {row : Node} (h : IsPlacedRow (upwardFrom grid r) row) :
    ∃ told : List CellAddress, (told.Nodup ∧ ∀ address, address ∈ told ↔ ComesUp grid r address) ∧
      List.Forall₂ (TellsCell grid) told row.children := by
  obtain ⟨placed, hplaced, hnodes⟩ := h
  obtain ⟨roots, hstand⟩ := exists_stand hplaced
  obtain ⟨told, hnodup, hmem, htexts⟩ := hstand.exists_told hnodes
  have hprefix := isPrefix_reverse_upwardFrom grid r
  refine ⟨told, ⟨hnodup, fun address => (hmem address).trans ?_⟩, htexts.imp ?_⟩
  · refine and_congr_left fun ⟨index, hroot⟩ => ?_
    rw [columnsOf_of_rootOf? hprefix hroot]
  · rintro address node ⟨cell, hcell, htext⟩
    exact ⟨cell, cellAt?_mono hprefix hcell, htext⟩

/-- The rows of a table tell what comes up there, one by one. -/
theorem exists_tellsCells {rows : List Node}
    (h : List.Forall₂ IsPlacedRow (upwards [] grid) rows) : ∃ told, TellsCells grid told rows := by
  rw [upwards_nil, List.forall₂_map_left_iff] at h
  obtain ⟨told, hrows, htexts⟩ :=
    exists_forall₂_of_comp (h.imp fun r row hrow => exists_told_of_isPlacedRow hrow)
  obtain ⟨hlength, hget⟩ := List.forall₂_iff_get.1 hrows
  have hrow {r : ℕ} {addresses : List CellAddress} (hr : told[r]? = some addresses) :
      addresses.Nodup ∧ ∀ address, address ∈ addresses ↔ ComesUp grid r address := by
    obtain ⟨hlt, rfl⟩ := List.getElem?_eq_some_iff.1 hr
    have hown := hget r (hlength ▸ hlt) hlt
    simp only [List.get_eq_getElem, List.getElem_range] at hown
    exact hown
  refine ⟨told, ?_, fun addresses hmem => ?_, fun r addresses hr => (hrow hr).2, htexts⟩
  · rw [← hlength, List.length_range]
  · obtain ⟨r, hr⟩ := List.mem_iff_getElem?.1 hmem
    exact (hrow hr).1

/-- The place of a cell comes up again in a table when the cell does, in some row. -/
theorem exists_repeats_iff {rows : List Node}
    (h : List.Forall₂ IsPlacedRow (upwards [] grid) rows) :
    (∃ up ∈ upwards [] grid, Repeats up) ↔
      ∃ r < grid.length, ∃ address, ComesUpAgain grid r address := by
  rw [upwards_nil, List.forall₂_map_left_iff] at h
  obtain ⟨hlength, hget⟩ := List.forall₂_iff_get.1 h
  simp only [upwards_nil, List.mem_map, List.mem_range, exists_exists_and_eq_and]
  refine exists_congr fun r => and_congr_right fun hr => ?_
  have hrow := hget r (by simpa using hr) (hlength ▸ by simpa using hr)
  rw [List.get_eq_getElem, List.getElem_range] at hrow
  exact repeats_upwardFrom_iff hrow

/-- A cell comes up in its own row when it takes up columns and continues no other one. -/
lemma comesUp_own_iff {address : CellAddress} {cell : GridCell}
    (hcell : cellAt? grid address = some cell) : ComesUp grid address.row address ↔
      0 < columnsOf grid address ∧ cell.continues = false := by
  refine and_congr_right fun _ => ⟨fun ⟨index, hroot⟩ => ?_, fun hown => ?_⟩
  · obtain ⟨-, found, hfound, hown⟩ := exists_of_rootOf? hroot
    have hwhole := cellAt?_mono (isPrefix_reverse_upwardFrom grid _) hfound
    rwa [Option.some.inj (hcell.symm.trans hwhole)]
  · exact ⟨address.index, rootOf?_of_own hcell hown⟩

/-- A cell that comes up anywhere comes up in its own row. -/
lemma ComesUp.own {r : ℕ} {address : CellAddress} (h : ComesUp grid r address) :
    address.row < grid.length ∧ ComesUp grid address.row address := by
  obtain ⟨hsome, index, hroot⟩ := h
  obtain ⟨-, cell, hcell, hown⟩ := exists_of_rootOf? hroot
  have hwhole := cellAt?_mono (isPrefix_reverse_upwardFrom grid r) hcell
  obtain ⟨row, hrow, -⟩ := Option.bind_eq_some_iff.1 hwhole
  exact ⟨(List.getElem?_eq_some_iff.1 hrow).1, (comesUp_own_iff hwhole).2 ⟨hsome, hown⟩⟩

/-- What stands once in some part is there once altogether when no other part has it. -/
lemma count_flatten_eq_one_iff {parts : List (List CellAddress)} {own : List CellAddress} {k : ℕ}
    {a : CellAddress} (hnodup : ∀ part ∈ parts, part.Nodup) (hown : parts[k]? = some own)
    (hmem : a ∈ own) :
    parts.flatten.count a = 1 ↔ ∀ r part, parts[r]? = some part → r ≠ k → a ∉ part := by
  induction parts generalizing k with
  | nil => cases hown
  | cons first parts ih =>
    obtain ⟨hfirst, hparts⟩ := List.forall_mem_cons.1 hnodup
    rw [List.flatten_cons, List.count_append]
    cases k with
    | zero =>
      obtain rfl : first = own := Option.some.inj hown
      have hnone : parts.flatten.count a = 0 ↔ ∀ part ∈ parts, a ∉ part := by
        rw [List.count_eq_zero, List.mem_flatten]
        simp only [not_exists, not_and]
      rw [List.count_eq_one_of_mem hfirst hmem, Nat.add_eq_left, hnone]
      constructor
      · intro hothers r part hpart hne
        cases r with
        | zero => exact absurd rfl hne
        | succ r => exact hothers part (List.mem_of_getElem? hpart)
      · intro hothers part hpart
        obtain ⟨r, hr⟩ := List.mem_iff_getElem?.1 hpart
        exact hothers (r + 1) part hr (Nat.succ_ne_zero r)
    | succ k =>
      have hsome : 0 < parts.flatten.count a :=
        List.count_pos_iff.2 (List.mem_flatten_of_mem (List.mem_of_getElem? hown) hmem)
      have hsplit : first.count a + parts.flatten.count a = 1 ↔
          a ∉ first ∧ parts.flatten.count a = 1 := by
        rw [← List.count_eq_zero]
        omega
      rw [hsplit, ih hparts hown]
      constructor
      · rintro ⟨hnot, hothers⟩ r part hpart hne
        cases r with
        | zero => exact Option.some.inj hpart ▸ hnot
        | succ r => exact hothers r part hpart fun heq => hne (congrArg _ heq)
      · intro hothers
        refine ⟨hothers 0 first rfl (Nat.succ_ne_zero k).symm, fun r part hpart hne => ?_⟩
        exact hothers (r + 1) part hpart fun heq => hne (Nat.succ.inj heq)

namespace TellsCells

variable {told : List (List CellAddress)} {rows : List Node}

/-- A cell is told once in all rows together when it comes up in its own row and in no other. -/
theorem count_eq_one_iff (h : TellsCells grid told rows) {address : CellAddress} {cell : GridCell}
    (hcell : cellAt? grid address = some cell) : told.flatten.count address = 1 ↔
      0 < columnsOf grid address ∧ cell.continues = false ∧
        ∀ r < grid.length, r ≠ address.row → ¬ComesUp grid r address := by
  have htold {r : ℕ} (hr : r < grid.length) : ∃ addresses, told[r]? = some addresses :=
    ⟨_, List.getElem?_eq_getElem (h.length_eq ▸ hr)⟩
  have hothers (hown : ComesUp grid address.row address) : told.flatten.count address = 1 ↔
      ∀ r < grid.length, r ≠ address.row → ¬ComesUp grid r address := by
    obtain ⟨addresses, haddresses⟩ := htold hown.own.1
    rw [count_flatten_eq_one_iff h.nodup haddresses ((h.mem_iff _ _ haddresses _).2 hown)]
    refine ⟨fun hnone r hr hne hagain => ?_, fun hnone r part hpart hne hmem => ?_⟩
    · obtain ⟨part, hpart⟩ := htold hr
      exact hnone r part hpart hne ((h.mem_iff r part hpart address).2 hagain)
    · have hr := (List.getElem?_eq_some_iff.1 hpart).1
      exact hnone r (h.length_eq ▸ hr) hne ((h.mem_iff r part hpart address).1 hmem)
  rw [← and_assoc, ← comesUp_own_iff hcell]
  constructor
  · intro hcount
    have hmem : address ∈ told.flatten := List.count_pos_iff.1 (by omega)
    obtain ⟨addresses, haddresses, hmem⟩ := List.mem_flatten.1 hmem
    obtain ⟨r, hr⟩ := List.mem_iff_getElem?.1 haddresses
    have hown := ((h.mem_iff r addresses hr address).1 hmem).own.2
    exact ⟨hown, (hothers hown).1 hcount⟩
  · rintro ⟨hown, hnone⟩
    exact (hothers hown).2 hnone

end TellsCells

end

namespace Entry

/-- The table that an entry is. -/
def tables : Entry → List Node
  | .block node => [node].filter (·.kind = .table)
  | _ => []

lemma PutTogether.filter_eq {run : List Entry} {part : List Node} (h : PutTogether run part) :
    part.filter (·.kind = .table) = run.flatMap tables := by
  cases h with
  | @items ordered items =>
    rw [List.flatMap_map]
    exact (List.flatMap_eq_nil_iff.2 fun _ _ => rfl).symm
  | block node => exact (List.append_nil _).symm
  | nothing => rfl
  | pageBreak => rfl

lemma Grouped.filter_eq {entries : List Entry} {blocks : List Node} (h : Grouped entries blocks) :
    blocks.filter (·.kind = .table) = entries.flatMap tables :=
  h.taken rfl (fun _ _ => List.filter_append ..) fun _ _ _ hpart => hpart.filter_eq

end Entry

namespace Body

variable {source : Source}

lemma gives_placed_rows (above others : List GridRow) :
    Gives (rows source above others) (List.Forall₂ IsPlacedRow (upwards above others)) := by
  induction others generalizing above with
  | nil => exact gives_pure .nil
  | cons row others ih =>
    rw [rows, upwards]
    exact (gives_need fun placed hplaced => hplaced).bind fun placed hplaced =>
      (gives_each_cell _ [] placed).bind fun nodes hnodes => (ih _).bind fun later hlater =>
        gives_pure (.cons ⟨placed, hplaced, hnodes⟩ hlater)

lemma gives_placed_table (element : Element) : Gives (table source element) fun node =>
    List.Forall₂ IsPlacedRow (upwards [] (gridOf element)) node.children :=
  (gives_placed_rows [] _).bind fun _ hrows => gives_pure hrows

lemma tables_pageEnd (element : Element) : (pageEnd element).flatMap Entry.tables = [] := by
  rw [pageEnd]
  split <;> rfl

/-- The tables among the entries are those of the body, in their order. -/
lemma tables_of_comesTo {elements : List Element} {found : List (List Entry)}
    (h : List.Forall₂ (ComesTo source) elements found) :
    List.Forall₂ (fun element node => Results (table source element) node)
      (elements.filter (·.name = w "tbl")) (found.flatten.flatMap Entry.tables) := by
  induction h with
  | nil => exact .nil
  | @cons element part elements found hpart _ ih =>
    have hparagraph (hname : element.name = w "p") (hnone : part.flatMap Entry.tables = []) :
        List.Forall₂ (fun element node => Results (table source element) node)
          ((element :: elements).filter (·.name = w "tbl"))
          ((part :: found).flatten.flatMap Entry.tables) := by
      have hother : element.name ≠ w "tbl" := by
        rw [hname]
        decide
      rw [List.filter_cons_of_neg (by simpa using hother), List.flatten_cons, List.flatMap_append,
        hnone]
      exact ih
    cases hpart with
    | @table node hname hkind hnode =>
      have hown : Entry.tables (.block node) = [node] := by simp [Entry.tables, hkind]
      rw [List.filter_cons_of_pos (by simpa using hname), List.flatten_cons, List.flatMap_append,
        List.flatMap_singleton, hown]
      exact .cons hnode ih
    | item hname => exact hparagraph hname (tables_pageEnd element)
    | heading hname => exact hparagraph hname (tables_pageEnd element)
    | @paragraph _ _ node hname _ _ _ _ _ hkind =>
      have hother : node.kind ≠ .table := by
        rw [hkind]
        decide
      have hown : Entry.tables (.block node) = [] := by simp [Entry.tables, hother]
      refine hparagraph hname ?_
      rw [List.flatMap_cons, hown]
      exact tables_pageEnd element
    | empty hname => exact hparagraph hname (tables_pageEnd element)
    | other htable =>
      rw [List.filter_cons_of_neg (by simpa using htable)]
      exact ih

end Body

variable {package : Package} {options : ReadOptions}

/-- The tables of a document that is read are those directly in the body. -/
lemma tables_of_read {outcome : Outcome Document} (h : read package options = .ok outcome) :
    ∃ root body, package.main.root? = some root ∧ root.first? (w "body") = some body ∧
      List.Forall₂ (fun table node =>
        List.Forall₂ IsPlacedRow (upwards [] (gridOf table)) node.children)
          (body.named (w "tbl")) (outcome.value.content.children.filter (·.kind = .table)) := by
  obtain ⟨root, footnotes, nodes, findings, hroot, -, hblocks, hcontent, -, -⟩ := parts_of_read h
  obtain ⟨body, blocks, before, hbody, hresult, rfl⟩ := body_of_blocks hblocks
  obtain ⟨⟨found, hfound, hgrouped⟩, -⟩ := Body.gives_blocks_comesTo body _ _ _ hresult
  have hdefinitions : (Footnote.definitions footnotes).filter (·.kind = .table) = [] := by
    refine List.filter_eq_nil_iff.2 fun node hnode => ?_
    rw [Footnote.kind_of_mem_definitions node hnode]
    decide
  have htables : outcome.value.content.children.filter (·.kind = .table) =
      found.flatten.flatMap Entry.tables := by
    have hchildren : outcome.value.content.children = blocks ++ Footnote.definitions footnotes := by
      rw [hcontent]
      rfl
    rw [hchildren, List.filter_append, hdefinitions, List.append_nil, hgrouped.filter_eq]
  refine ⟨root, body, hroot, hbody, ?_⟩
  rw [htables]
  refine (Body.tables_of_comesTo hfound).imp fun table node hnode => ?_
  obtain ⟨before, after, hnode⟩ := hnode
  exact (Body.gives_placed_table table before node after hnode).1

/-- A cell of a table is told once exactly when it takes up columns, continues no other cell and
comes up in no other row; a row tells what comes up in it, each cell once. That cells were merged is
reported exactly when a cell comes up again within a row. -/
theorem read_tells_cells {outcome : Outcome Document} (h : read package options = .ok outcome) :
    ∃ root body, package.main.root? = some root ∧ root.first? (w "body") = some body ∧
      List.Forall₂ (fun table node => ∃ told, TellsCells (gridOf table) told node.children ∧
        ∀ address cell, cellAt? (gridOf table) address = some cell →
          (told.flatten.count address = 1 ↔ 0 < columnsOf (gridOf table) address ∧
            cell.continues = false ∧ ∀ r < (gridOf table).length, r ≠ address.row →
              ¬ComesUp (gridOf table) r address))
        (body.named (w "tbl")) (outcome.value.content.children.filter (·.kind = .table)) ∧
      (mergedCells.warning ∈ outcome.warnings ↔ ∃ table ∈ body.named (w "tbl"),
        ∃ r < (gridOf table).length, ∃ address, ComesUpAgain (gridOf table) r address) := by
  obtain ⟨root, body, hroot, hbody, htables⟩ := tables_of_read h
  obtain ⟨root', body', hroot', hbody', hwarning⟩ := mem_warnings_of_read h
  obtain rfl : root = root' := Option.some.inj (hroot.symm.trans hroot')
  obtain rfl : body = body' := Option.some.inj (hbody.symm.trans hbody')
  refine ⟨root, body, hroot, hbody, htables.imp fun table node hrows => ?_, hwarning.trans ?_⟩
  · obtain ⟨told, htold⟩ := exists_tellsCells hrows
    exact ⟨told, htold, fun address cell hcell => htold.count_eq_one_iff hcell⟩
  · have hrepeats := ((List.forall₂_and_left _ _).1
      (htables.imp fun table node hrows => ⟨exists_repeats_iff hrows, hrows⟩)).1
    exact exists_congr fun table => and_congr_right (hrepeats table)

/-- A cell of two columns beside one of two rows. -/
theorem read_tells_cells_crossed :
    let cell (properties : List Element) (text : String) : Element := .branch (w "tc")
      [.branch (w "tcPr") properties, .branch (w "p") [.branch (w "r") [.ofText (w "t") text]]]
    let table : Element := .branch (w "tbl") [
      .branch (w "tr") [cell [.leaf (w "gridSpan") [⟨w "val", "2"⟩]] "a",
        cell [.leaf (w "vMerge") [⟨w "val", "restart"⟩]] "b"],
      .branch (w "tr") [cell [] "c", cell [] "d", cell [.leaf (w "vMerge")] ""]]
    ∃ outcome, read (ofBody (.branch (w "body") [table])) .standard = .ok outcome ∧
      outcome.warnings = [mergedCells.warning] ∧
      outcome.value.content.textContent = "abcdb" ∧
      (∃ node told, outcome.value.content.children.filter (·.kind = .table) = [node] ∧
        TellsCells (gridOf table) told node.children ∧
        ∀ address cell, cellAt? (gridOf table) address = some cell →
          (told.flatten.count address = 1 ↔ 0 < columnsOf (gridOf table) address ∧
            cell.continues = false ∧ ∀ r < (gridOf table).length, r ≠ address.row →
              ¬ComesUp (gridOf table) r address)) ∧
      ∃ r < (gridOf table).length, ∃ address, ComesUpAgain (gridOf table) r address := by
  intro cell table
  obtain ⟨outcome, hread, hwarnings, htext⟩ : ∃ outcome,
      read (ofBody (.branch (w "body") [table])) .standard = .ok outcome ∧
      outcome.warnings = [mergedCells.warning] ∧
      outcome.value.content.textContent = "abcdb" := exists_outcome (by decide +kernel)
  obtain ⟨root, body, hroot, hbody, htables, hreported⟩ := read_tells_cells hread
  obtain rfl : .branch (w "document") [.branch (w "body") [table]] = root := Option.some.inj hroot
  obtain rfl : .branch (w "body") [table] = body := Option.some.inj hbody
  have honly : (Element.branch (w "body") [table]).named (w "tbl") = [table] := rfl
  rw [honly] at htables hreported
  obtain ⟨node, nodes, ⟨told, htold, hcounts⟩, hnone, hnodes⟩ := List.forall₂_cons_left_iff.1 htables
  obtain rfl := List.forall₂_nil_left_iff.1 hnone
  obtain ⟨found, hfound, hagain⟩ := hreported.1 (hwarnings ▸ List.mem_singleton_self _)
  obtain rfl := List.mem_singleton.1 hfound
  exact ⟨outcome, hread, hwarnings, htext, ⟨node, told, hnodes, htold, hcounts⟩, hagain⟩

/-- A cell of two rows is told in both, and nothing is reported. -/
theorem not_read_tells_cells_continued :
    let cell (merge : Element) (text : String) : Element := .branch (w "tc")
      [.branch (w "tcPr") [merge], .branch (w "p") [.branch (w "r") [.ofText (w "t") text]]]
    let table : Element := .branch (w "tbl") [
      .branch (w "tr") [cell (.leaf (w "vMerge") [⟨w "val", "restart"⟩]) "a"],
      .branch (w "tr") [cell (.leaf (w "vMerge")) ""]]
    ∃ doc, read (ofBody (.branch (w "body") [table])) .standard = .ok ⟨doc, []⟩ ∧
      doc.content.textContent = "aa" ∧ rootOf? (upwardFrom (gridOf table) 0) 0 = some ⟨0, 0⟩ ∧
      rootOf? (upwardFrom (gridOf table) 1) 0 = some ⟨0, 0⟩ ∧
      columnsOf (gridOf table) ⟨0, 0⟩ = 1 := by
  intro cell table
  obtain ⟨doc, hread, htext⟩ : ∃ doc,
      read (ofBody (.branch (w "body") [table])) .standard = .ok ⟨doc, []⟩ ∧
      doc.content.textContent = "aa" := exists_read (by decide +kernel)
  exact ⟨doc, hread, htext, by decide +kernel, by decide +kernel, by decide +kernel⟩

end Interchange.Word
