import Interchange.Proofs.Delimited.Rereading
import Interchange.Proofs.Document.Contents
import Interchange.Proofs.Document.Traversal

/-!
# Text that a written table keeps

When a document is written without a warning it has one table, and all its letters are in that
table. Of the table the parts of the cells are written, so what is lost is exactly the text that a
row or a cell bears itself: nothing looks at it.
-/
namespace Interchange

open Text (Keeps letters)

namespace Delimited

variable {d q : Char}

/-- After a row the scan starts afresh, whatever rows follow. -/
lemma scanFrom_rowEnd (h : ProperMarks d q) {pos : Position} (hout : pos.inside = false)
    {ending : String} (hending : ending ∈ lineEndings) (records : List Fields) :
    scanFrom (.ofChars d q) true pos (ending.toList ++ tableChars d q ending.toList records) =
      .push pos.fields pos.sawQuote
        (scanFrom (.ofChars d q) true .start (tableChars d q ending.toList records)) := by
  have hlineFeed (cs : List Char) : afterBreak '\n' cs = cs := by
    unfold afterBreak
    split <;> simp
  simp only [lineEndings, List.mem_cons, List.not_mem_nil, or_false] at hending
  rcases hending with rfl | rfl | rfl
  · refine (scanFrom_break h hout (.inr rfl) _).trans ?_
    rw [hlineFeed]
    rfl
  · exact scanFrom_break h hout (.inl rfl) _
  · -- A carriage return takes a line feed along, but no row begins with one.
    refine scanFrom_ending h hout (by decide) ?_
    cases records with
    | nil => simp [tableChars]
    | cons record records =>
      rw [tableChars, List.flatMap_cons, List.append_assoc]
      by_cases hrecord : record = []
      · subst hrecord
        have hline : lineChars d q [] = [] := rfl
        simp [hline]
      · exact head?_lineChars_append h hrecord _

/-- A row without cells is an empty line, which is no record. -/
theorem scanFrom_rows (h : ProperMarks d q) {ending : String} (hending : ending ∈ lineEndings)
    (records : List Fields) :
    scanFrom (.ofChars d q) true .start (tableChars d q ending.toList records) =
      ⟨records.filter (· ≠ []), false⟩ := by
  induction records with
  | nil => exact scanFrom_nil _
  | cons record records ih =>
    rw [tableChars, List.flatMap_cons, List.append_assoc, ← tableChars]
    by_cases hrecord : record = []
    · subst hrecord
      have hline : lineChars d q [] = [] := rfl
      have hstart : Position.start.fields = [[]] := rfl
      rw [hline, List.nil_append, scanFrom_rowEnd h rfl hending, ih, hstart,
        List.filter_cons_of_neg (by simp), Scanned.push, if_pos]
      exact ⟨rfl, rfl⟩
    · obtain ⟨pos, hout, hfields, hblank, hscan⟩ := scanFrom_lineChars_append h hrecord
      rw [hscan true _ (head?_ending h hending _), scanFrom_rowEnd h hout hending, ih, hfields,
        push_of_written hblank, List.filter_cons_of_pos (by simpa using hrecord)]

/-- The rows of a written table that have cells are read back. -/
theorem records_writeRecords (dialect : Dialect) {ending : String} (hending : ending ∈ lineEndings)
    (records : List (List String)) :
    (scanRecords dialect.marks (writeRecords (String.ofList [dialect.delimiter])
      (String.ofList [dialect.quote]) ending records)).records = records.filter (· ≠ []) := by
  have hmarks : dialect.marks = .ofChars dialect.delimiter dialect.quote := rfl
  have hfilter : (records.map (·.map String.toList)).filter (· ≠ []) =
      (records.filter (· ≠ [])).map (·.map String.toList) := by
    rw [List.filter_map]
    congr 2
    funext record
    simp
  rw [scanRecords, toList_writeRecords, hmarks, scanFrom_rows (properMarks dialect) hending]
  dsimp only
  rw [hfilter, List.map_map]
  exact (List.map_congr_left fun record _ => map_ofList_toList record).trans (List.map_id _)

/-- The characters of all fields that a text has, one after the other. -/
def fieldChars (dialect : Dialect) (text : String) : List Char :=
  (scanRecords dialect.marks text).records.flatten.flatMap String.toList

lemma fieldChars_textOf (dialect : Dialect) (records : List (List String)) :
    fieldChars dialect (textOf dialect records) = records.flatten.flatMap String.toList := by
  rw [fieldChars, textOf, records_writeRecords dialect (by decide), List.flatten_filter_ne_nil]

end Delimited

namespace Node

lemma letters_ownText {node : Node} (h : node.holdsText = false) :
    letters node.ownText.toList = [] := by
  cases hbears : bearsText node.kind with
  | false =>
    rw [ownText, hbears]
    rfl
  | true =>
    rw [holdsText, hbears, Bool.true_and, Bool.not_eq_false', ← Text.letters_eq_nil_iff,
      textContent_eq, String.toList_append, Text.letters_append] at h
    exact (List.append_eq_nil_iff.1 h).1

/-- Where no part holds text there are no letters. -/
lemma letters_textContent_of_silent {node : Node}
    (h : ∀ place part, node.at? place = some part → part.holdsText = false) :
    letters node.textContent.toList = [] := by
  rw [textContent_eq_flatMap_walk, Text.letters_flatMap, List.flatMap_eq_nil_iff]
  intro part hpart
  obtain ⟨place, hplace⟩ := exists_place_of_mem_walk hpart
  exact letters_ownText (h place part hplace)

/-- Where no part outside a node holds text, all letters are those of that node. The induction is on
the way down to it; all other children on the way are silent. -/
theorem letters_textContent_of_outside {first : List Nat} {root node : Node}
    (hnode : root.at? first = some node)
    (h : ∀ place part, root.at? place = some part → ¬first <+: place → part.holdsText = false) :
    letters root.textContent.toList = letters node.textContent.toList := by
  induction first generalizing root with
  | nil => rw [Option.some.inj hnode]
  | cons i first ih =>
    obtain ⟨child, hchild, hnode⟩ := at?_cons_eq_some.1 hnode
    obtain ⟨hi, rfl⟩ := List.getElem?_eq_some_iff.1 hchild
    have hown := letters_ownText (h [] root rfl (by simp))
    have hothers (j : Nat) (hj : j < root.children.length) (hne : j ≠ i) :
        letters root.children[j].textContent.toList = [] := by
      refine letters_textContent_of_silent fun place part hpart => h (j :: place) part ?_ ?_
      · exact at?_cons_eq_some.2 ⟨_, List.getElem?_eq_getElem hj, hpart⟩
      · intro hprefix
        exact hne (List.cons_prefix_cons.1 hprefix).1.symm
    have hbefore : (root.children.take i).flatMap (fun other => letters other.textContent.toList) = [] := by
      rw [List.flatMap_eq_nil_iff]
      intro other hother
      obtain ⟨j, hj, rfl⟩ := List.mem_take_iff_getElem.1 hother
      exact hothers j (by omega) (by omega)
    have hafter : (root.children.drop (i + 1)).flatMap
        (fun other => letters other.textContent.toList) = [] := by
      rw [List.flatMap_eq_nil_iff]
      intro other hother
      obtain ⟨j, hj, rfl⟩ := List.mem_drop_iff_getElem.1 hother
      exact hothers _ (by omega) (by omega)
    have hrest := ih hnode fun place part hpart hprefix => h (i :: place) part
      (at?_cons_eq_some.2 ⟨_, hchild, hpart⟩) (fun hcons => hprefix (List.cons_prefix_cons.1 hcons).2)
    have hsplit : root.children =
        root.children.take i ++ root.children[i] :: root.children.drop (i + 1) := by
      rw [← List.drop_eq_getElem_cons hi, List.take_append_drop]
    rw [textContent_eq, String.toList_append, Text.letters_append, hown, List.nil_append,
      textContents_eq_flatMap, Text.letters_flatMap, hsplit, List.flatMap_append,
      List.flatMap_cons, hbefore, hafter, hrest, List.nil_append, List.append_nil]

end Node

/-- A text that consists of what is kept, in its order, and what is lost. -/
structure Parted (whole kept lost : List Char) : Prop where
  sublist : kept.Sublist whole
  length : whole.length = lost.length + kept.length

namespace Parted

variable {whole whole' kept kept' lost lost' : List Char}

lemma all (cs : List Char) : Parted cs cs [] := ⟨.refl cs, by simp⟩

lemma none (cs : List Char) : Parted cs [] cs := ⟨List.nil_sublist cs, by simp⟩

lemma append (h : Parted whole kept lost) (h' : Parted whole' kept' lost') :
    Parted (whole ++ whole') (kept ++ kept') (lost ++ lost') := by
  refine ⟨h.sublist.append h'.sublist, ?_⟩
  have hlength := h.length
  have hlength' := h'.length
  simp only [List.length_append]
  omega

lemma flatMap {α : Type} {f g k : α → List Char} {xs : List α}
    (h : ∀ x ∈ xs, Parted (f x) (g x) (k x)) :
    Parted (xs.flatMap f) (xs.flatMap g) (xs.flatMap k) := by
  induction xs with
  | nil => exact .all []
  | cons x xs ih =>
    obtain ⟨hx, hxs⟩ := List.forall_mem_cons.1 h
    exact hx.append (ih hxs)

/-- What is kept is the whole exactly when nothing is lost. -/
theorem sublist_iff (h : Parted whole kept lost) : whole.Sublist kept ↔ lost = [] := by
  have hlength := h.length
  constructor
  · intro hwhole
    have hle := hwhole.length_le
    exact List.eq_nil_of_length_eq_zero (by omega)
  · rintro rfl
    have hequal : kept.length = whole.length := by simpa using hlength.symm
    rw [h.sublist.eq_of_length hequal]

end Parted

namespace Delimited

/-- The letters that rows and cells bear themselves, which no record has. -/
def ownLetters (table : Node) : List Char :=
  table.children.flatMap fun row => letters row.ownText.toList ++
    row.children.flatMap fun cell => letters cell.ownText.toList

/-- The parts that hold no text add none. -/
lemma flatten_filled (cell : Node) :
    (((cell.children.map Node.textContent).filter (· ≠ "")).map String.toList).flatten =
      (Node.textContents cell.children).toList := by
  rw [Node.textContents_eq_flatMap]
  induction cell.children with
  | nil => rfl
  | cons part parts ih =>
    by_cases hpart : part.textContent = ""
    · simpa [hpart] using ih
    · simpa [hpart] using ih

lemma letters_cellText (cell : Node) :
    letters (cellText cell).toList = letters (Node.textContents cell.children).toList := by
  have hbreak : letters ['\n'] = [] := by decide
  rw [cellText, String.toList_intercalate, ← flatten_filled]
  exact Text.letters_intercalate hbreak _

lemma parted_cell (cell : Node) : Parted (letters cell.textContent.toList)
    (letters (cellText cell).toList) (letters cell.ownText.toList) := by
  have hown := Parted.none (letters cell.ownText.toList)
  rw [Node.textContent_eq, String.toList_append, Text.letters_append, letters_cellText]
  simpa using hown.append (.all (letters (Node.textContents cell.children).toList))

lemma parted_row (row : Node) : Parted (letters row.textContent.toList)
    (row.children.flatMap fun cell => letters (cellText cell).toList)
    (letters row.ownText.toList ++ row.children.flatMap fun cell => letters cell.ownText.toList) := by
  have hown := Parted.none (letters row.ownText.toList)
  rw [Node.textContent_eq, String.toList_append, Text.letters_append, Node.textContents_eq_flatMap,
    Text.letters_flatMap]
  exact hown.append (.flatMap fun cell _ => parted_cell cell)

/-- Of the text of a table the parts of its cells are kept. -/
theorem parted_table {table : Node} (h : table.kind = .table) :
    Parted (letters table.textContent.toList)
      (letters ((table.children.map recordOf).flatten.flatMap String.toList)) (ownLetters table) := by
  have hown : table.ownText = "" := by rw [Node.ownText, h]; rfl
  have hrows : letters table.textContent.toList =
      table.children.flatMap fun row => letters row.textContent.toList := by
    rw [Node.textContent_eq, hown, String.empty_append, Node.textContents_eq_flatMap,
      Text.letters_flatMap]
  have hfields : letters ((table.children.map recordOf).flatten.flatMap String.toList) =
      table.children.flatMap fun row => row.children.flatMap fun cell =>
        letters (cellText cell).toList := by
    rw [Text.letters_flatMap, ← List.flatMap_def, List.flatMap_assoc]
    simp only [recordOf, List.flatMap_map]
  rw [hrows, hfields]
  exact .flatMap fun row _ => parted_row row

/-- Without a warning there is one table, and no text outside it. -/
lemma tables_of_write {dialect : Dialect} {doc : Document} {text : String}
    (h : write dialect doc .standard = .ok ⟨text, []⟩) :
    ∃ table, doc.content.tables = [table] ∧ doc.content.hasStrayText = false ∧
      text = textOf dialect (table.children.map recordOf) := by
  cases htables : doc.content.tables with
  | nil =>
    rw [write, htables] at h
    simp at h
  | cons table others =>
    rw [write_of_tables dialect htables] at h
    obtain ⟨htext, hnotices⟩ := Outcome.mk.inj (Except.ok.inj h)
    have hnone := (List.append_eq_nil_iff.1 (Notice.settle_eq_nil_iff.1 hnotices)).1
    rw [tableNotices] at hnone
    obtain ⟨hmore, hstray⟩ := List.append_eq_nil_iff.1 hnone
    have hothers : others = [] := by simpa using hmore
    subst hothers
    exact ⟨table, rfl, by simpa using hstray, htext.symm⟩

lemma ownLetters_eq_nil_iff {table : Node} :
    ownLetters table = [] ↔ ∀ row ∈ table.children,
      Text.isBlankLine row.ownText.toList = true ∧
        ∀ cell ∈ row.children, Text.isBlankLine cell.ownText.toList = true := by
  simp only [ownLetters, List.flatMap_eq_nil_iff, List.append_eq_nil_iff, Text.letters_eq_nil_iff]

/-- A document that is written without a warning has its letters in the fields that are read back,
in their order, if and only if no row and no cell of its table bears text itself. -/
theorem keeps_fieldChars_iff {dialect : Dialect} {doc : Document} {text : String}
    (h : write dialect doc .standard = .ok ⟨text, []⟩) :
    Keeps doc.content.textContent.toList (fieldChars dialect text) ↔
      ∀ table ∈ doc.content.tables, ∀ row ∈ table.children,
        Text.isBlankLine row.ownText.toList = true ∧
          ∀ cell ∈ row.children, Text.isBlankLine cell.ownText.toList = true := by
  obtain ⟨table, htables, hstray, rfl⟩ := tables_of_write h
  have htable : table.kind = .table :=
    Node.kind_of_mem_tables (htables ▸ List.mem_singleton_self table)
  have hletters : letters doc.content.textContent.toList = letters table.textContent.toList := by
    obtain ⟨first, others, hplaced, rfl, -⟩ := List.map_eq_cons_iff.1 htables
    have hfirst := (Node.mem_placedTables.1 (hplaced ▸ List.mem_cons_self)).1
    refine Node.letters_textContent_of_outside hfirst fun place part hpart hprefix => ?_
    refine Bool.eq_false_of_not_eq_true fun htext => Bool.eq_false_iff.1 hstray ?_
    exact (Node.hasStrayText_iff hplaced).2 ⟨place, part, hpart, htext, hprefix⟩
  rw [Text.keeps_iff, hletters, fieldChars_textOf, (parted_table htable).sublist_iff,
    ownLetters_eq_nil_iff, htables, List.forall_mem_singleton]

/-- A row below a division, with fields that need quotes, and an empty row. -/
theorem keeps_fieldChars_ledger :
    let doc := Document.ofContent (.document [.branch .div [.table [
      .tableRow [.tableCell true [.text "a,\"b\""],
        .tableCell true [.paragraph [.text " c"], .paragraph [.text "d"]]],
      .tableRow []]]])
    write .comma doc .standard = .ok ⟨"\"a,\"\"b\"\"\",\" c\nd\"\n\n", []⟩ ∧
      Keeps doc.content.textContent.toList
        (fieldChars .comma "\"a,\"\"b\"\"\",\" c\nd\"\n\n") := by
  intro doc
  have hwritten : write .comma doc .standard =
      .ok ⟨"\"a,\"\"b\"\"\",\" c\nd\"\n\n", []⟩ :=
    (write_of_tables .comma rfl).trans
      (congrArg Except.ok (congrArg₂ Outcome.mk (by decide +kernel) (by decide +kernel)))
  exact ⟨hwritten, (keeps_fieldChars_iff hwritten).2 (by decide +kernel)⟩

/-- The text of a caption is neither written nor reported. -/
theorem not_keeps_fieldChars_caption :
    let doc := Document.ofContent (.document [.table [.branch .caption [.text "Cap"],
      .tableRow [.tableCell true [.text "a"]]]])
    write .comma doc .standard = .ok ⟨"\"\"\na\n", []⟩ ∧
      ¬Keeps doc.content.textContent.toList (fieldChars .comma "\"\"\na\n") := by
  intro doc
  exact ⟨rfl, by decide +kernel⟩

end Delimited

end Interchange
