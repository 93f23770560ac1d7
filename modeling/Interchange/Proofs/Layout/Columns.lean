import Interchange.Document.Builders
import Interchange.Layout.Writer
import Interchange.Proofs.Layout.Keeping
import Interchange.Proofs.Layout.Shapes
import Interchange.Proofs.Layout.Stacking

/-!
# The columns of a table

A table becomes one block with a line for each of its rows. Every column begins at one place in all
of them: after the widest texts of the columns before it, each with the separator behind it.
-/
namespace Interchange.Layout

/-- The greatest of some numbers is one of them. -/
lemma isGreatest_greatest {ns : List ℕ} (hne : ns ≠ []) :
    IsGreatest {n | n ∈ ns} (greatest ns) := by
  refine ⟨?_, fun n hn => le_foldl_max (.inr hn)⟩
  obtain ⟨n, rest, rfl⟩ := List.exists_cons_of_ne_nil hne
  have hmem (start : ℕ) : rest.foldl max start ∈ start :: rest := by
    clear hne
    induction rest generalizing start with
    | nil => exact List.mem_singleton_self start
    | cons m rest ih =>
      rw [List.foldl_cons]
      rcases List.mem_cons.1 (ih (max start m)) with h | h
      · rw [h]
        rcases max_choice start m with hmax | hmax <;> simp [hmax]
      · exact List.mem_cons_of_mem _ (List.mem_cons_of_mem _ h)
  have hfirst : greatest (n :: rest) = rest.foldl max n := by
    rw [greatest, List.foldl_cons, Nat.zero_max]
  exact hfirst ▸ hmem n

lemma isGreatest_columnWidth {rows : List (List Chars)} (hne : rows ≠ []) (column : ℕ) :
    IsGreatest {n | ∃ row ∈ rows, (row.getD column []).length = n} (columnWidth rows column) := by
  have hlengths : rows.map (fun row => (row.getD column []).length) ≠ [] := by simpa using hne
  have hgreatest := isGreatest_greatest hlengths
  simp only [List.mem_map] at hgreatest
  exact hgreatest

/-- Where a column begins: after the columns before it and the separator behind each of them. -/
def columnStart (separator : Chars) (width : ℕ → ℕ) (column : ℕ) : ℕ :=
  ∑ before ∈ Finset.range column, (width before + separator.length)

/-- Joined pieces that are as wide as their columns begin where these do. -/
lemma drop_columnStart (separator : Chars) {width : ℕ → ℕ} {pieces : List Chars}
    (hwidth : ∀ i piece, pieces[i]? = some piece → piece.length = width i) {column : ℕ}
    (hcolumn : column < pieces.length) :
    (List.intercalate separator pieces).drop (columnStart separator width column) =
      List.intercalate separator (pieces.drop column) := by
  induction column with
  | zero => simp [columnStart]
  | succ column ih =>
    have hbefore : column < pieces.length := Nat.lt_of_succ_lt hcolumn
    have hlength : pieces[column].length = width column :=
      hwidth column _ (List.getElem?_eq_getElem hbefore)
    have hjoined : List.intercalate separator (pieces.drop column) =
        (pieces[column] ++ separator) ++ List.intercalate separator (pieces.drop (column + 1)) := by
      rw [List.drop_eq_getElem_cons hbefore, List.drop_eq_getElem_cons hcolumn,
        List.intercalate_cons_cons]
    have hstart : columnStart separator width (column + 1) =
        columnStart separator width column + (pieces[column] ++ separator).length := by
      rw [columnStart, Finset.sum_range_succ, List.length_append, hlength]
      rfl
    rw [hstart, ← List.drop_drop, ih hbefore, hjoined, List.drop_left]

/-- The texts of a row stand in a line, each where its column begins and with the separator before
the next column. Blanks at the end of the line may be missing. -/
def StandsInColumns (separator : Chars) (width : ℕ → ℕ) (row : List Chars) (line : Chars) : Prop :=
  ∃ trimmed : Chars, (∀ c ∈ trimmed, Text.isBlank c = true) ∧ ∀ column,
    row.getD column [] <+: (line ++ trimmed).drop (columnStart separator width column) ∧
      columnStart separator width column + (row.getD column []).length + separator.length ≤
        columnStart separator width (column + 1)

lemma standsInColumns_tableLine (separator : Chars) {rows : List (List Chars)} {row : List Chars}
    (hrow : row ∈ rows) : StandsInColumns separator (columnWidth rows) row
      (tableLine separator (columnWidths rows) row) := by
  have hfits (column : ℕ) : (row.getD column []).length ≤ columnWidth rows column :=
    le_foldl_max (.inr (List.mem_map.2 ⟨row, hrow, rfl⟩))
  have hcount : row.length ≤ columnCount rows :=
    le_foldl_max (.inr (List.mem_map.2 ⟨row, hrow, rfl⟩))
  let pieces := (List.range (columnCount rows)).map fun column =>
    padRight (columnWidth rows column) (row.getD column [])
  have hline : tableLine separator (columnWidths rows) row =
      Text.stripEnd (List.intercalate separator pieces) := by
    rw [tableLine, columnWidths, mapIdx_padRight]
  have hpiece {i : ℕ} {piece : Chars} (h : pieces[i]? = some piece) :
      piece = padRight (columnWidth rows i) (row.getD i []) := by
    obtain ⟨hi, rfl⟩ := List.getElem?_eq_some_iff.1 h
    simp [pieces]
  have hwidth (i : ℕ) (piece : Chars) (h : pieces[i]? = some piece) :
      piece.length = columnWidth rows i := by
    rw [hpiece h, padRight, List.length_append, List.length_replicate,
      Nat.add_sub_cancel' (hfits i)]
  obtain ⟨trimmed, hblank, htrimmed⟩ :=
    Text.exists_stripEnd_append (List.intercalate separator pieces)
  refine ⟨trimmed, hblank, fun column => ⟨?_, ?_⟩⟩
  · rw [hline, htrimmed]
    by_cases hcolumn : column < pieces.length
    · have hfirst : row.getD column [] <+: pieces[column] := by
        rw [hpiece (List.getElem?_eq_getElem hcolumn)]
        exact List.prefix_append _ _
      rw [drop_columnStart separator hwidth hcolumn, List.drop_eq_getElem_cons hcolumn]
      exact hfirst.trans (Text.prefix_intercalate separator _ _)
    · have hbeyond : row.length ≤ column := by
        simp only [pieces, List.length_map, List.length_range] at hcolumn
        omega
      rw [List.getD_eq_getElem?_getD, List.getElem?_eq_none hbeyond]
      exact List.nil_prefix
  · rw [columnStart, columnStart, Finset.sum_range_succ]
    have := hfits column
    omega

lemma lines_unlines {ls : List Chars} (hne : ls ≠ []) (h : ∀ line ∈ ls, '\n' ∉ line) :
    lines (unlines ls) = ls := by
  induction ls with
  | nil => exact absurd rfl hne
  | cons line ls ih =>
    obtain ⟨hline, hrest⟩ := List.forall_mem_cons.1 h
    cases ls with
    | nil => simpa [lines, unlines, joinWith, Text.splitAt] using Text.splitAt_append hline []
    | cons next ls =>
      have hjoined : unlines (line :: next :: ls) = line ++ '\n' :: unlines (next :: ls) := by
        simp [unlines, joinWith, List.intercalate_cons_cons]
      rw [hjoined, lines, Text.splitAt_append hline, Text.splitAt_cons_self, ← lines,
        ih (List.cons_ne_nil next ls) hrest]
      simp

lemma lineFeed_notMem_flatten (cs : Chars) : '\n' ∉ flatten cs := by
  intro h
  obtain ⟨c, -, hc⟩ := List.mem_map.1 h
  split at hc
  · cases hc
  · next hne => exact hne hc

lemma lineFeed_notMem_tableLine {separator : Chars} (hseparator : '\n' ∉ separator)
    (widths : List ℕ) {row : List Chars} (hrow : ∀ cell ∈ row, '\n' ∉ cell) :
    '\n' ∉ tableLine separator widths row := by
  intro h
  rcases Text.mem_intercalate (Text.mem_of_mem_stripEnd h) with ⟨piece, hpiece, hmem⟩ | hmem
  · obtain ⟨column, hcolumn, rfl⟩ := List.mem_mapIdx.1 hpiece
    rcases List.mem_append.1 hmem with hcell | hpadding
    · cases hfound : row[column]? with
      | none => simp [List.getD_eq_getElem?_getD, hfound] at hcell
      | some cell =>
        rw [List.getD_eq_getElem?_getD, hfound] at hcell
        exact hrow cell (List.mem_of_getElem? hfound) hcell
    · exact absurd (List.eq_of_mem_replicate hpadding) (by decide)
  · exact hseparator hmem

/-- The texts of the cells of a table as they are laid out, row by row. -/
def cellTexts (setting : Setting) (table : Node) : List (List Chars) :=
  table.children.map fun row => row.children.map fun cell =>
    cellText (renderAll (setting.within .table table.kind) cell.children)

lemma renderCells_eq_map (setting : Setting) (cells : List Node) :
    renderCells setting cells = cells.map fun cell => renderAll setting cell.children := by
  induction cells with
  | nil => rfl
  | cons cell cells ih =>
    obtain ⟨kind, props, children, span⟩ := cell
    rw [renderCells, ih, List.map_cons]

lemma renderRows_eq_map (setting : Setting) (rows : List Node) :
    renderRows setting rows = rows.map fun row => renderCells setting row.children := by
  induction rows with
  | nil => rfl
  | cons row rows ih =>
    obtain ⟨kind, props, cells, span⟩ := row
    rw [renderRows, ih, List.map_cons]

lemma render_table {setting : Setting} {table : Node} (hkind : table.kind = .table)
    (hrows : table.children ≠ []) : render setting table =
      .blocks [unlines (tableLines setting.separator (cellTexts setting table))] := by
  obtain ⟨kind, props, rows, span⟩ := table
  obtain rfl : kind = .table := hkind
  have hrole : roleOf .table = .table := by decide
  have hcells : (renderRows (setting.within .table .table) rows).map (·.map cellText) =
      cellTexts setting ⟨.table, props, rows, span⟩ := by
    rw [renderRows_eq_map, List.map_map]
    refine List.map_congr_left fun row _ => ?_
    rw [Function.comp_apply, renderCells_eq_map, List.map_map]
    rfl
  have hfilled : (renderRows (setting.within .table .table) rows).isEmpty = false := by
    rw [renderRows_eq_map, List.isEmpty_map]
    simpa using hrows
  rw [render]
  dsimp only
  rw [hrole]
  dsimp only
  rw [tableBlock, hfilled, hcells]
  rfl

/-- A block has one line for each row, and every column begins at the same place in all of them:
each column is as wide as the widest text in it. -/
def InColumns (separator : Chars) (rows : List (List Chars)) (block : Chars) : Prop :=
  ∃ width : ℕ → ℕ,
    (∀ column, IsGreatest {n | ∃ row ∈ rows, (row.getD column []).length = n} (width column)) ∧
    List.Forall₂ (StandsInColumns separator width) rows (lines block)

lemma inColumns_tableLines {separator : Chars} (hseparator : '\n' ∉ separator)
    {rows : List (List Chars)} (hne : rows ≠ [])
    (hcells : ∀ row ∈ rows, ∀ cell ∈ row, '\n' ∉ cell) :
    InColumns separator rows (unlines (tableLines separator rows)) := by
  have hlines : lines (unlines (tableLines separator rows)) = tableLines separator rows := by
    refine lines_unlines (by simpa [tableLines] using hne) fun line hline => ?_
    obtain ⟨row, hrow, rfl⟩ := List.mem_map.1 hline
    exact lineFeed_notMem_tableLine hseparator _ (hcells row hrow)
  refine ⟨columnWidth rows, isGreatest_columnWidth hne, ?_⟩
  rw [hlines, tableLines, List.forall₂_map_right_iff, List.forall₂_same]
  exact fun row hrow => standsInColumns_tableLine separator hrow

/-- A table with rows is laid out as one block, in which the texts of its cells stand in columns,
whatever the cells hold and however many of them the rows have. -/
theorem render_table_inColumns {setting : Setting} (hseparator : '\n' ∉ setting.separator)
    {table : Node} (hkind : table.kind = .table) (hrows : table.children ≠ []) :
    ∃ block, render setting table = .blocks [block] ∧
      InColumns setting.separator (cellTexts setting table) block := by
  refine ⟨_, render_table hkind hrows, ?_⟩
  refine inColumns_tableLines hseparator (by simpa [cellTexts] using hrows) ?_
  intro row hrow cell hcell
  obtain ⟨node, -, rfl⟩ := List.mem_map.1 hrow
  obtain ⟨part, -, rfl⟩ := List.mem_map.1 hcell
  exact lineFeed_notMem_flatten _

/-- Rows of two, of no and of three cells, with a list, a table and blanks at an end in them. -/
theorem render_table_inColumns_ragged :
    let setting : Setting := ⟨.plain, standardSeparator.toList, .plain, false⟩
    let cell := Node.tableCell false
    let table := Node.table [
      .tableRow [cell [.text "a"], cell [.list true [.text "b", .text "c"]]], .tableRow [],
      .tableRow [cell [.table [.tableRow [cell [.text "d"], cell [.text "e"]]]], cell [],
        cell [.text "f  "]]]
    '\n' ∉ setting.separator ∧ table.kind = .table ∧ table.children ≠ [] ∧
      ∃ block, render setting table = .blocks [block] ∧
        InColumns setting.separator (cellTexts setting table) block := by
  intro setting cell table
  have hseparator : '\n' ∉ setting.separator := by decide
  exact ⟨hseparator, rfl, List.cons_ne_nil _ _,
    render_table_inColumns hseparator rfl (List.cons_ne_nil _ _)⟩

/-- A document that is one table with rows is written as the lines of the table, all ended. Of a
table with one row nothing may be left but blanks, and then there is no line at all. -/
theorem write_table (medium : Medium) {doc : Document} (hroot : doc.content.kind = .document)
    {table : Node} (hparts : doc.content.children = [table]) (hkind : table.kind = .table)
    (hrows : table.children ≠ []) {options : WriteOptions} {text : String}
    (hseparator : separatorFor doc.content options = .ok text) (hbreak : '\n' ∉ text.toList) :
    ∃ written block, write medium doc options = .ok written ∧
      InColumns text.toList (cellTexts ⟨medium, text.toList, .plain, false⟩ table) block ∧
      written.value.toList = (if block = [] then [] else block ++ ['\n']) ∧
      (block = [] → table.children.length = 1) := by
  let setting : Setting := ⟨medium, text.toList, .plain, false⟩
  have hbreak' : '\n' ∉ setting.separator := hbreak
  obtain ⟨block, hblock, hcolumns⟩ := render_table_inColumns hbreak' hkind hrows
  refine ⟨_, block, write_eq_output medium hseparator, hcolumns, ?_, ?_⟩
  · have hflow (root : Node) (hroot : root.kind = .document) (hparts : root.children = [table]) :
        (render setting root).toBlocks = nonempty block := by
      obtain ⟨kind, props, children, span⟩ := root
      subst hroot hparts
      change flow [render setting table] = nonempty block
      rw [hblock]
      cases block <;> rfl
    rw [output, String.toList_ofList, layOut, hflow _ hroot hparts]
    cases block <;> simp [nonempty, joinWith]
  · rintro rfl
    obtain ⟨width, -, hlines⟩ := hcolumns
    have hlength := hlines.length_eq
    rwa [cellTexts, List.length_map] at hlength

example :
    let cell := Node.tableCell false
    let setting : Setting := ⟨.plain, standardSeparator.toList, .plain, false⟩
    layOut setting (.table [.tableRow [cell [.text "a"], cell [.text "b"], cell [.text "cc "]],
        .tableRow [cell [.text "dd"]]]) = "a  | b | cc\ndd |   |\n".toList ∧
      layOut setting (.table [.tableRow [cell [.text " "]]]) = [] := by
  decide

end Interchange.Layout
