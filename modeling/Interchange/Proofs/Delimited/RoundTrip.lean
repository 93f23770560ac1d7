import Interchange.Delimited.Tables
import Interchange.Proofs.Delimited.Scanning

/-!
# Tables are read back as they were written

For any two proper marks, the records of a written table are scanned back field for field,
whatever characters stand in the fields and whichever of the three line ends is used.
-/
namespace Interchange.Delimited

variable {d q : Char} {splits : Bool} {pos : Position}

namespace Position

/-- Where a scan stands after a written field, at whose start it stood. -/
def afterField (d q : Char) (pos : Position) (cs : List Char) : Position :=
  let quoted := needsQuotes [d] [q] cs
  { pos with sawQuote := pos.sawQuote || quoted, field := pieces quoted cs }

/-- Where a scan stands after written fields with a delimiter between each two. -/
def afterFields (d q : Char) (pos : Position) (first : List Char) : Fields → Position
  | [] => pos.afterField d q first
  | second :: rest => (pos.afterField d q first).endField.afterFields d q second rest

end Position

lemma finishField_afterField (cs : List Char) :
    finishField (pos.afterField d q cs).field = cs := by
  cases h : needsQuotes [d] [q] cs with
  | false =>
    simp only [Position.afterField, h, finishField_unquoted]
    exact (needsQuotes_eq_false_iff.1 h).trimmed
  | true => simp only [Position.afterField, h, finishField_quoted]

theorem scanFrom_quoteChars_append (hout : pos.inside = false) (hfield : pos.field = [])
    (cs : List Char) {rest : List Char} (hrest : rest.head? ≠ some q) :
    scanFrom (.ofChars d q) splits pos (quoteChars [d] [q] cs ++ rest) =
      scanFrom (.ofChars d q) splits (pos.afterField d q cs) rest := by
  obtain ⟨inside, sawQuote, field, record⟩ := pos
  subst hout hfield
  cases h : needsQuotes [d] [q] cs with
  | false =>
    have plain := needsQuotes_eq_false_iff.1 h
    rw [quoteChars, h, if_neg Bool.false_ne_true, scanFrom_plain_append rfl rest plain.delimiter
      plain.quote plain.cr plain.lf]
    simp [Position.afterField, h]
  | true =>
    rw [quoteChars, h, if_pos rfl, List.append_assoc, List.append_assoc, List.singleton_append,
      List.singleton_append, scanFrom_open rfl, scanFrom_doubled_append rfl cs hrest]
    simp [Position.afterField, h]

/-- The characters of the line of a record. -/
def lineChars (d q : Char) (record : Fields) : List Char :=
  if record = [[]] then [q, q] else List.intercalate [d] (record.map (quoteChars [d] [q]))

lemma inside_afterFields (hout : pos.inside = false) (first : List Char) (fields : Fields) :
    (pos.afterFields d q first fields).inside = false := by
  induction fields generalizing pos first with
  | nil => exact hout
  | cons second fields ih => exact @ih (pos.afterField d q first).endField hout second

lemma fields_afterFields (first : List Char) (fields : Fields) :
    (pos.afterFields d q first fields).fields = pos.record.reverse ++ first :: fields := by
  induction fields generalizing pos first with
  | nil =>
    rw [Position.afterFields, Position.fields, finishField_afterField, List.reverse_cons]
    rfl
  | cons second fields ih =>
    rw [Position.afterFields, ih, Position.endField, finishField_afterField, List.reverse_cons,
      List.append_assoc]
    rfl

theorem scanFrom_fields_append (h : ProperMarks d q) (hout : pos.inside = false)
    (hfield : pos.field = []) (first : List Char) (fields : Fields) {rest : List Char}
    (hrest : rest.head? ≠ some q) :
    scanFrom (.ofChars d q) splits pos
        (List.intercalate [d] ((first :: fields).map (quoteChars [d] [q])) ++ rest) =
      scanFrom (.ofChars d q) splits (pos.afterFields d q first fields) rest := by
  induction fields generalizing pos first with
  | nil =>
    rw [List.map_singleton, List.intercalate_singleton]
    exact scanFrom_quoteChars_append hout hfield first hrest
  | cons second fields ih =>
    have hd : ([d] ++ (List.intercalate [d] ((second :: fields).map (quoteChars [d] [q])) ++
        rest)).head? ≠ some q := by
      simpa using h.distinct
    have houtside : (pos.afterField d q first).inside = false := hout
    rw [List.map_cons, List.map_cons, List.intercalate_cons_cons, ← List.map_cons, List.append_assoc,
      List.append_assoc, scanFrom_quoteChars_append hout hfield first hd, List.singleton_append,
      scanFrom_delimiter h.distinct houtside]
    exact @ih (pos.afterField d q first).endField hout rfl second

/-- A written line leaves the scan outside quotes with the fields of its record, and never where a
record counts as blank. -/
theorem scanFrom_lineChars_append (h : ProperMarks d q) {record : Fields} (hrecord : record ≠ []) :
    ∃ pos : Position, pos.inside = false ∧ pos.fields = record ∧
      (record = [[]] → pos.sawQuote = true) ∧
      ∀ splits rest, rest.head? ≠ some q →
        scanFrom (.ofChars d q) splits .start (lineChars d q record ++ rest) =
          scanFrom (.ofChars d q) splits pos rest := by
  by_cases hblank : record = [[]]
  · subst hblank
    refine ⟨⟨false, true, [], []⟩, rfl, rfl, fun _ => rfl, fun splits rest hrest => ?_⟩
    rw [lineChars, if_pos rfl, List.cons_append, List.singleton_append, scanFrom_open rfl,
      scanFrom_close rfl hrest]
    rfl
  · obtain ⟨first, fields, rfl⟩ := List.exists_cons_of_ne_nil hrecord
    refine ⟨Position.start.afterFields d q first fields, inside_afterFields rfl first fields,
      fields_afterFields first fields, fun hb => absurd hb hblank, fun splits rest hrest => ?_⟩
    rw [lineChars, if_neg hblank]
    exact scanFrom_fields_append h rfl rfl first fields hrest

/-- A line never begins with a line feed, which a carriage return before it would take along. -/
lemma head?_lineChars_append (h : ProperMarks d q) {record : Fields} (hrecord : record ≠ [])
    (rest : List Char) : (lineChars d q record ++ rest).head? ≠ some '\n' := by
  by_cases hblank : record = [[]]
  · subst hblank
    simpa [lineChars] using h.quote_ne_lf
  · obtain ⟨first, fields, rfl⟩ := List.exists_cons_of_ne_nil hrecord
    rw [lineChars, if_neg hblank]
    cases hq : needsQuotes [d] [q] first with
    | true =>
      have quoted : quoteChars [d] [q] first = q :: (doubled [q] first ++ [q]) := by
        simp [quoteChars, hq]
      cases fields <;> simpa [quoted] using h.quote_ne_lf
    | false =>
      have plain := needsQuotes_eq_false_iff.1 hq
      have unquoted : quoteChars [d] [q] first = first := by
        simp [quoteChars, hq]
      cases first with
      | cons c cs =>
        have hc : c ≠ '\n' := by
          rintro rfl
          exact plain.lf List.mem_cons_self
        cases fields <;> simpa [unquoted] using hc
      | nil =>
        cases fields with
        | nil => exact absurd rfl hblank
        | cons second fields => simpa [unquoted] using h.delimiter_ne_lf

/-- The ways in which a line may end. -/
def lineEndings : List String := ["\n", "\r\n", "\r"]

/-- The characters of a whole table. -/
def tableChars (d q : Char) (ending : List Char) (records : List Fields) : List Char :=
  records.flatMap fun record => lineChars d q record ++ ending

lemma head?_tableChars (h : ProperMarks d q) {ending : List Char} {records : List Fields}
    (hrecords : ∀ r ∈ records, r ≠ []) : (tableChars d q ending records).head? ≠ some '\n' := by
  cases records with
  | nil => simp [tableChars]
  | cons record records =>
    rw [tableChars, List.flatMap_cons, List.append_assoc]
    exact head?_lineChars_append h (hrecords record List.mem_cons_self) _

lemma scanFrom_ending (h : ProperMarks d q) (hout : pos.inside = false) {ending : String}
    (hending : ending ∈ lineEndings) {rest : List Char} (hrest : rest.head? ≠ some '\n') :
    scanFrom (.ofChars d q) true pos (ending.toList ++ rest) =
      .push pos.fields pos.sawQuote (scanFrom (.ofChars d q) true .start rest) := by
  have lf : afterBreak '\n' rest = rest := by
    unfold afterBreak
    split <;> simp
  have cr : afterBreak '\r' rest = rest := by
    unfold afterBreak
    split
    · simp at hrest
    · rfl
  simp only [lineEndings, List.mem_cons, List.not_mem_nil, or_false] at hending
  rcases hending with rfl | rfl | rfl
  · exact (scanFrom_break h hout (.inr rfl) rest).trans (by rw [lf])
  · exact scanFrom_break h hout (.inl rfl) ('\n' :: rest)
  · exact (scanFrom_break h hout (.inl rfl) rest).trans (by rw [cr])

lemma head?_ending (h : ProperMarks d q) {ending : String} (hending : ending ∈ lineEndings)
    (rest : List Char) : (ending.toList ++ rest).head? ≠ some q := by
  simp only [lineEndings, List.mem_cons, List.not_mem_nil, or_false] at hending
  rcases hending with rfl | rfl | rfl
  · simpa using Ne.symm h.quote_ne_lf
  · simpa using Ne.symm h.quote_ne_cr
  · simpa using Ne.symm h.quote_ne_cr

lemma push_of_written {record : Fields} {sawQuote : Bool}
    (h : record = [[]] → sawQuote = true) (rest : Scanned) :
    Scanned.push record sawQuote rest = { rest with records := record :: rest.records } := by
  rw [Scanned.push, if_neg]
  rintro ⟨hrecord, hquote⟩
  simp [h hrecord] at hquote

/-- The induction is on the records: each line is scanned from a fresh start. -/
theorem scanFrom_tableChars (h : ProperMarks d q) {ending : String}
    (hending : ending ∈ lineEndings) (records : List Fields) (hrecords : ∀ r ∈ records, r ≠ []) :
    scanFrom (.ofChars d q) true .start (tableChars d q ending.toList records) =
      ⟨records, false⟩ := by
  induction records with
  | nil => exact scanFrom_nil _
  | cons record records ih =>
    obtain ⟨hrecord, hrest⟩ := List.forall_mem_cons.1 hrecords
    obtain ⟨pos, hout, hfields, hblank, hscan⟩ := scanFrom_lineChars_append h hrecord
    have following : (tableChars d q ending.toList records).head? ≠ some '\n' :=
      head?_tableChars h hrest
    rw [tableChars, List.flatMap_cons, List.append_assoc, ← tableChars,
      hscan true _ (head?_ending h hending _), scanFrom_ending h hout hending following, ih hrest,
      hfields, push_of_written hblank]

theorem scanFrom_lineChars (h : ProperMarks d q) {record : Fields} (hrecord : record ≠ []) :
    scanFrom (.ofChars d q) splits .start (lineChars d q record) = ⟨[record], false⟩ := by
  obtain ⟨pos, hout, hfields, hblank, hscan⟩ := scanFrom_lineChars_append h hrecord
  have notStart : ¬pos.isStart = true := by
    intro hstart
    simp only [Position.isStart, Bool.and_eq_true, List.isEmpty_iff, Bool.not_eq_true'] at hstart
    obtain ⟨⟨hfield, hrec⟩, hquote⟩ := hstart
    have hempty : record = [[]] := by
      rw [← hfields, Position.fields, hfield, hrec]
      rfl
    rw [hblank hempty] at hquote
    cases hquote
  have atEnd := hscan splits [] (by simp)
  rw [List.append_nil] at atEnd
  rw [atEnd, scanFrom_nil, if_neg notStart, hfields, hout, push_of_written hblank]

lemma toList_writeRecord (d q : Char) (record : List String) :
    (writeRecord (String.ofList [d]) (String.ofList [q]) record).toList =
      lineChars d q (record.map String.toList) := by
  have blank : record = [""] ↔ record.map String.toList = [[]] := by
    rw [← String.toList_empty, ← List.map_singleton, List.map_inj_right]
    exact fun s t h => String.toList_inj.1 h
  by_cases h : record = [""]
  · rw [writeRecord, if_pos h, lineChars, if_pos (blank.1 h)]
    simp
  · rw [writeRecord, if_neg h, lineChars, if_neg (mt blank.2 h), String.toList_intercalate,
      String.toList_ofList, List.map_map, List.map_map]
    congr 1
    apply List.map_congr_left
    intro field _
    simp [quoteField]

lemma toList_writeRecords (d q : Char) (ending : String) (records : List (List String)) :
    (writeRecords (String.ofList [d]) (String.ofList [q]) ending records).toList =
      tableChars d q ending.toList (records.map (·.map String.toList)) := by
  rw [writeRecords, String.toList_join, tableChars, List.flatMap_map, List.flatMap_map]
  congr 1
  funext record
  rw [String.toList_append, toList_writeRecord]

lemma map_ofList_toList (record : List String) :
    (record.map String.toList).map String.ofList = record := by
  rw [List.map_map]
  exact (List.map_congr_left fun s _ => String.ofList_toList).trans (List.map_id record)

/-- A written table is scanned back as its records, and each line alone as its fields. -/
theorem scanRecords_writeRecords (h : ProperMarks d q) {ending : String}
    (hending : ending ∈ lineEndings) (records : List (List String))
    (hrecords : ∀ record ∈ records, record ≠ []) :
    scanRecords (.ofChars d q)
        (writeRecords (String.ofList [d]) (String.ofList [q]) ending records) = ⟨records, false⟩ ∧
      ∀ record ∈ records, splitFields (.ofChars d q)
        (writeRecord (String.ofList [d]) (String.ofList [q]) record) = record := by
  constructor
  · have chars : ∀ r ∈ records.map (·.map String.toList), r ≠ [] := by
      intro r hr
      obtain ⟨record, hmem, rfl⟩ := List.mem_map.1 hr
      simpa using hrecords record hmem
    rw [scanRecords, toList_writeRecords, scanFrom_tableChars h hending _ chars]
    simp only [List.map_map]
    congr 1
    exact (List.map_congr_left fun r _ => map_ofList_toList r).trans (List.map_id records)
  · intro record hmem
    have chars : record.map String.toList ≠ [] := by simpa using hrecords record hmem
    rw [splitFields, scanRecords, toList_writeRecord, scanFrom_lineChars h chars]
    exact map_ofList_toList record

theorem scanRecords_writeRecords_crlf :
    let records := [["a,b", "say \"hi\"", " x\u00a0", "line\r\nbreak", ""], [""], ["", ""]]
    (ProperMarks ',' '"' ∧ "\r\n" ∈ lineEndings ∧ ∀ record ∈ records, record ≠ []) ∧
      scanRecords (.ofChars ',' '"') (writeRecords "," "\"" "\r\n" records) = ⟨records, false⟩ ∧
      ∀ record ∈ records,
        splitFields (.ofChars ',' '"') (writeRecord "," "\"" record) = record := by
  intro records
  have proper : ProperMarks ',' '"' := by
    constructor <;> decide
  have ending : "\r\n" ∈ lineEndings := by decide
  have nonempty : ∀ record ∈ records, record ≠ [] := by decide
  exact ⟨⟨proper, ending, nonempty⟩, scanRecords_writeRecords proper ending records nonempty⟩

end Interchange.Delimited
