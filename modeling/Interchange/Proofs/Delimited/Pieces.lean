import Interchange.Proofs.Delimited.Keeping

/-!
# Cells whose text is in pieces

The parts of a cell are written on lines of their own, as paragraphs are, also where they are pieces
of one text. So the text of such a cell is read back as it was if and only if at most one of its
pieces is not empty.
-/
namespace Interchange.Delimited

lemma length_intercalate (separator first : List Char) (pieces : List (List Char)) :
    (List.intercalate separator (first :: pieces)).length =
      (first :: pieces).flatten.length + pieces.length * separator.length := by
  induction pieces generalizing first with
  | nil => simp
  | cons second pieces ih =>
    rw [List.intercalate_cons_cons, List.length_append, List.length_append, ih second,
      List.flatten_cons (l := first), List.length_append, List.length_cons]
    ring

/-- What is put between pieces is seen as soon as there are two of them. -/
theorem intercalate_eq_flatten_iff {separator : List Char} (h : separator ≠ [])
    {pieces : List (List Char)} :
    List.intercalate separator pieces = pieces.flatten ↔ pieces.length ≤ 1 := by
  cases pieces with
  | nil => simp
  | cons first pieces =>
    constructor
    · intro hequal
      have hlength := length_intercalate separator first pieces
      rw [hequal, left_eq_add, mul_eq_zero, List.length_eq_zero_iff, List.length_eq_zero_iff]
        at hlength
      rw [hlength.resolve_right h, List.length_singleton]
    · intro hlength
      have hnone : pieces = [] := by simpa using hlength
      rw [hnone, List.intercalate_singleton, List.flatten_singleton]

/-- A cell with nothing but pieces of text in it, of whatever content and number. -/
structure IsPieced (cell : Node) : Prop where
  kind : cell.kind = .tableCell
  pieces : ∀ part ∈ cell.children, part.kind = .text ∧ part.children = []

instance (cell : Node) : Decidable (IsPieced cell) :=
  decidable_of_iff (cell.kind = .tableCell ∧
      ∀ part ∈ cell.children, part.kind = .text ∧ part.children.isEmpty = true) <| by
    simp only [List.isEmpty_iff]
    exact ⟨fun h => ⟨h.1, h.2⟩, fun h => ⟨h.kind, h.pieces⟩⟩

/-- The number of the pieces that are not empty. -/
def pieceCount (cell : Node) : ℕ := cell.children.countP (·.textContent ≠ "")

/-- The cell with its whole text in one piece. -/
def inOnePiece (cell : Node) : Node := { cell with children := [.text cell.textContent] }

lemma IsPieced.textContent_eq {cell : Node} (h : IsPieced cell) :
    cell.textContent = Node.textContents cell.children := by
  refine Node.textContent_of_parts ?_
  rw [h.kind]
  decide

theorem cellText_eq_textContent_iff {cell : Node} (h : IsPieced cell) :
    cellText cell = cell.textContent ↔ pieceCount cell ≤ 1 := by
  have hbreak : "\n".toList ≠ [] := by decide
  rw [← String.toList_inj, h.textContent_eq, ← flatten_filled, cellText, String.toList_intercalate,
    intercalate_eq_flatten_iff hbreak, List.length_map, List.filter_map, List.length_map,
    pieceCount, List.countP_eq_length_filter]
  rfl

lemma cellText_inOnePiece (cell : Node) : cellText (inOnePiece cell) = cell.textContent :=
  cellText_of_children rfl

/-- The line of a row. -/
def lineOf (dialect : Dialect) (cells : List Node) : String :=
  writeRecord (String.ofList [dialect.delimiter]) (String.ofList [dialect.quote])
    (cells.map cellText)

lemma splitFields_lineOf (dialect : Dialect) {cells : List Node} (h : cells ≠ []) :
    splitFields dialect.marks (lineOf dialect cells) = cells.map cellText := by
  have hchars : (cells.map cellText).map String.toList ≠ [] := by simpa using h
  have hmarks : dialect.marks = .ofChars dialect.delimiter dialect.quote := rfl
  rw [splitFields, scanRecords, lineOf, toList_writeRecord, hmarks,
    scanFrom_lineChars (properMarks dialect) hchars]
  exact map_ofList_toList _

/-- The fields of a row can be told from its line. -/
lemma lineOf_eq_iff (dialect : Dialect) {cells others : List Node} (h : cells ≠ [])
    (h' : others ≠ []) :
    lineOf dialect cells = lineOf dialect others ↔ cells.map cellText = others.map cellText := by
  constructor
  · intro hline
    rw [← splitFields_lineOf dialect h, hline, splitFields_lineOf dialect h']
  · intro hequal
    rw [lineOf, hequal, lineOf]

/-- A cell in pieces is written like the cell in one piece if at most one piece is not empty. -/
theorem lineOf_inOnePiece_iff (dialect : Dialect) {cell : Node} (h : IsPieced cell)
    (front back : List Node) :
    lineOf dialect (front ++ cell :: back) = lineOf dialect (front ++ inOnePiece cell :: back) ↔
      pieceCount cell ≤ 1 := by
  rw [lineOf_eq_iff dialect (by simp) (by simp), List.map_append, List.map_append,
    List.append_cancel_left_eq, List.map_cons, List.map_cons, List.cons.injEq,
    cellText_inOnePiece, and_iff_left rfl, cellText_eq_textContent_iff h]

variable {doc : Document} {options : WriteOptions} {table : Node}
  {others : List Node} {ending : String}

/-- A document with a table is written line by line, whatever ends the lines. Of a cell in pieces the
field that is read back has the text of the cell, and the line is that of the cell in one piece, if
and only if at most one of the pieces is not empty. -/
theorem reads_pieces_iff (dialect : Dialect) (htables : doc.content.tables = table :: others)
    (hterminator : terminator (Settings.merge writeSettings options.extra) = .ok ending)
    (hending : ending ∈ lineEndings) :
    ∃ written, write dialect doc options = .ok written ∧
      written.value = String.join (table.children.map fun row =>
        lineOf dialect row.children ++ ending) ∧
      List.Forall₂ (fun row record => List.Forall₂ (fun cell field => IsPieced cell →
          (field = cell.textContent ↔ pieceCount cell ≤ 1)) row.children record)
        (table.children.filter (·.children ≠ []))
        (scanRecords dialect.marks written.value).records ∧
      ∀ row ∈ table.children, ∀ front cell back, row.children = front ++ cell :: back →
        IsPieced cell → (lineOf dialect row.children =
          lineOf dialect (front ++ inOnePiece cell :: back) ↔ pieceCount cell ≤ 1) := by
  refine ⟨_, write_of_terminator dialect htables hterminator, ?_, ?_, ?_⟩
  · rw [writeRecords, List.map_map]
    rfl
  · have hfilter : (table.children.map recordOf).filter (· ≠ []) =
        (table.children.filter (·.children ≠ [])).map recordOf := by
      rw [List.filter_map]
      congr 2
      funext row
      simp [recordOf]
    dsimp only
    rw [records_writeRecords dialect hending, hfilter, List.forall₂_map_right_iff,
      List.forall₂_same]
    intro row _
    rw [recordOf, List.forall₂_map_right_iff, List.forall₂_same]
    exact fun cell _ hcell => cellText_eq_textContent_iff hcell
  · intro row _ front cell back hrow hcell
    rw [hrow]
    exact lineOf_inOnePiece_iff dialect hcell front back

/-- Empty pieces around one that is not, two pieces that are not, and a row without cells. -/
theorem reads_pieces_margins :
    let row := Node.tableRow [.tableCell true [.text "", .text " a", .text ""],
      .tableCell true [.text "b\"", .text "c"]]
    let doc := Document.ofContent (.document [.table [row, .tableRow []]])
    let options : WriteOptions :=
      { WriteOptions.standard with extra := .ofList [(terminatorName, .text "\r\n")] }
    (∀ cell ∈ row.children, IsPieced cell) ∧ row.children.map pieceCount = [1, 2] ∧
      ∃ written, write .tab doc options = .ok written ∧
        List.Forall₂ (fun row record => List.Forall₂ (fun cell field => IsPieced cell →
            (field = cell.textContent ↔ pieceCount cell ≤ 1)) row.children record)
          [row] (scanRecords Dialect.tab.marks written.value).records := by
  intro row doc options
  have htables : doc.content.tables = [.table [row, .tableRow []]] := rfl
  have hterminator : terminator (Settings.merge writeSettings options.extra) = .ok "\r\n" := rfl
  obtain ⟨written, hwritten, -, hfields, -⟩ :=
    reads_pieces_iff .tab htables hterminator (by decide)
  exact ⟨by decide +kernel, by decide +kernel, written, hwritten, hfields⟩

/-- Two pieces of one text come apart, and nothing is reported. -/
theorem not_reads_pieces_split :
    let cell := Node.tableCell true [.text "a", .text "b"]
    let docOf (cell : Node) := Document.ofContent (.document [.table [.tableRow [cell]]])
    IsPieced cell ∧ write .comma (docOf cell) .standard = .ok ⟨"\"a\nb\"\n", []⟩ ∧
      (scanRecords Dialect.comma.marks "\"a\nb\"\n").records ≠ [[cell.textContent]] ∧
      write .comma (docOf (inOnePiece cell)) .standard = .ok ⟨"ab\n", []⟩ := by
  intro cell docOf
  have hpieces : write .comma (docOf cell) .standard = .ok ⟨"\"a\nb\"\n", []⟩ :=
    (write_of_tables .comma rfl).trans
      (congrArg Except.ok (congrArg₂ Outcome.mk (by decide +kernel) (by decide +kernel)))
  have hwhole : write .comma (docOf (inOnePiece cell)) .standard = .ok ⟨"ab\n", []⟩ :=
    (write_of_tables .comma rfl).trans
      (congrArg Except.ok (congrArg₂ Outcome.mk (by decide +kernel) (by decide +kernel)))
  exact ⟨by decide +kernel, hpieces, by decide +kernel, hwhole⟩

end Interchange.Delimited
