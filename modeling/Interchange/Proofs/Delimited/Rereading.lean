import Interchange.Delimited.Tables
import Interchange.Proofs.Delimited.Outermost
import Interchange.Proofs.Delimited.RoundTrip
import Interchange.Proofs.Document.Contents
import Interchange.Proofs.Text.Encoding

/-!
# Tables that are read, written and read again

What was read from any bytes is written and read again as it was, but for one case: a field that
stands first, begins with the byte order mark and needs no quotes loses the mark, since no rule of
quoting knows of it.
-/
namespace Interchange.Delimited

open Text (markChar withoutMarkChar)

variable {d q : Char}

lemma properMarks (dialect : Dialect) : ProperMarks dialect.delimiter dialect.quote := by
  cases dialect <;> constructor <;> decide

lemma cellText_of_children {cell : Node} {field : String} (h : cell.children = [.text field]) :
    cellText cell = field := by
  have hparts : cell.children.map Node.textContent = [field] := by
    rw [h, List.map_singleton, Node.textContent_text]
  rw [cellText, hparts]
  by_cases hempty : field = ""
  · simp [hempty]
  · simp [hempty]

@[simp] lemma cellText_cellOf (header : Bool) (field : String) :
    cellText (cellOf header field) = field := cellText_of_children rfl

lemma recordOf_rowOf (header : Bool) (fields : List String) :
    recordOf (rowOf header fields) = fields := by
  have hcells : (rowOf header fields).children = fields.map (cellOf header) := rfl
  rw [recordOf, hcells, List.map_map]
  exact (List.map_congr_left fun field _ => cellText_cellOf header field).trans (List.map_id fields)

theorem map_recordOf_rowsOf (header : Bool) (records : List (List String)) :
    (rowsOf header records).map recordOf = records := by
  cases records with
  | nil => rfl
  | cons first rest =>
    have hrest : rest.map (recordOf ∘ rowOf false) = rest :=
      (List.map_congr_left fun fields _ => recordOf_rowOf false fields).trans (List.map_id rest)
    rw [rowsOf, List.map_cons, List.map_map, recordOf_rowOf, hrest]

lemma rowsOf_injective (header : Bool) : Function.Injective (rowsOf header) :=
  Function.LeftInverse.injective (map_recordOf_rowsOf header)

/-- The document that records are read into. -/
def tableDocument (records : List (List String)) : Node := .document [.table (rowsOf true records)]

lemma tableDocument_inj {records others : List (List String)} :
    tableDocument records = tableDocument others ↔ records = others := by
  constructor
  · intro h
    have htable := congrArg Node.children h
    have hrows := congrArg (fun nodes => nodes.flatMap Node.children) htable
    have hequal : rowsOf true records = rowsOf true others := by
      simpa [tableDocument, Node.document, Node.table, Node.branch] using hrows
    exact rowsOf_injective true hequal
  · rintro rfl
    rfl

lemma fields_ne_nil (pos : Position) : pos.fields ≠ [] := by
  simp [Position.fields]

lemma ne_nil_of_mem_push {pos : Position} {sawQuote : Bool} {rest : Scanned} {record : Fields}
    (hrest : record ∈ rest.records → record ≠ [])
    (h : record ∈ (Scanned.push pos.fields sawQuote rest).records) : record ≠ [] := by
  rw [Scanned.push] at h
  split at h
  · exact hrest h
  · rcases List.mem_cons.1 h with rfl | h
    · exact fields_ne_nil pos
    · exact hrest h

/-- A record has at least one field. -/
theorem ne_nil_of_mem_scanFrom {marks : Marks} {splits : Bool} {pos : Position} {cs : List Char}
    {record : Fields} (h : record ∈ (scanFrom marks splits pos cs).records) : record ≠ [] := by
  fun_induction scanFrom marks splits pos cs with
  | case1 => simp at h
  | case2 => exact ne_nil_of_mem_push (by simp) h
  | case3 _ _ _ _ _ ih => exact ih h
  | case4 _ _ _ _ _ _ _ ih => exact ih h
  | case5 _ _ _ _ ih => exact ih h
  | case6 _ _ _ _ _ ih => exact ih h
  | case7 _ _ _ _ _ ih => exact ih h
  | case8 _ _ _ _ _ _ ih => exact ih h
  | case9 _ _ _ _ _ _ _ ih => exact ne_nil_of_mem_push ih h
  | case10 _ _ _ _ _ _ _ ih => exact ih h

lemma ne_nil_of_mem_scanRecords {marks : Marks} {text : String} {record : List String}
    (h : record ∈ (scanRecords marks text).records) : record ≠ [] := by
  obtain ⟨chars, hchars, rfl⟩ := List.mem_map.1 h
  simpa using ne_nil_of_mem_scanFrom hchars

/-- The fields after the first on a line. -/
def furtherFields (d q : Char) (fields : Fields) : List Char :=
  fields.flatMap fun field => d :: quoteChars [d] [q] field

lemma intercalate_cons_eq (first : List Char) (fields : Fields) :
    List.intercalate [d] ((first :: fields).map (quoteChars [d] [q])) =
      quoteChars [d] [q] first ++ furtherFields d q fields := by
  induction fields generalizing first with
  | nil => simp [furtherFields]
  | cons second fields ih =>
    have hrest := ih second
    rw [List.map_cons] at hrest
    rw [List.map_cons, List.map_cons, List.intercalate_cons_cons, hrest]
    simp [furtherFields]

/-- Whether the first field of all begins with the byte order mark and is written as it is. -/
def BeginsWithBareMark (d q : Char) (records : List Fields) : Prop :=
  ∃ cs fields rest, records = ((markChar :: cs) :: fields) :: rest ∧ IsPlain d q (markChar :: cs)

/-- A written table begins with the mark only where the first field does. -/
lemma beginsWithBareMark_of_head? (hd : d ≠ markChar) (hq : q ≠ markChar) {ending : List Char}
    {records : List Fields} (hrecords : ∀ r ∈ records, r ≠ [])
    (h : (tableChars d q ending records).head? = some markChar) :
    BeginsWithBareMark d q records := by
  cases records with
  | nil => simp [tableChars] at h
  | cons record rest =>
    obtain ⟨first, fields, rfl⟩ := List.exists_cons_of_ne_nil (hrecords record List.mem_cons_self)
    by_cases hblank : first :: fields = [[]]
    · simp [tableChars, lineChars, hblank, hq] at h
    · rw [tableChars, List.flatMap_cons, lineChars, if_neg hblank, intercalate_cons_eq] at h
      cases hquotes : needsQuotes [d] [q] first with
      | true => simp [quoteChars, hquotes, hq] at h
      | false =>
        cases first with
        | nil =>
          cases fields with
          | nil => exact absurd rfl hblank
          | cons second fields => simp [quoteChars, hquotes, furtherFields, hd] at h
        | cons c cs =>
          obtain rfl : c = markChar := by simpa [quoteChars, hquotes] using h
          exact ⟨cs, fields, rest, rfl, needsQuotes_eq_false_iff.1 hquotes⟩

/-- Where the first field of a line was cut short, it is trimmed anew and the others are as they
were. -/
lemma scanFrom_cutLine (h : ProperMarks d q) {cs : List Char} (hd : d ∉ cs) (hq : q ∉ cs)
    (hcr : '\r' ∉ cs) (hlf : '\n' ∉ cs) (fields : Fields) {rest : List Char}
    (hrest : rest.head? ≠ some '\n') :
    ∃ sawQuote, scanFrom (.ofChars d q) true .start
        (cs ++ (furtherFields d q fields ++ ("\n".toList ++ rest))) =
      .push (Text.strip cs :: fields) sawQuote (scanFrom (.ofChars d q) true .start rest) := by
  have hending : "\n" ∈ lineEndings := by decide
  rw [scanFrom_plain_append rfl _ hd hq hcr hlf]
  cases fields with
  | nil =>
    refine ⟨false, ?_⟩
    rw [furtherFields, List.flatMap_nil, List.nil_append, scanFrom_ending h rfl hending hrest]
    simp [Position.start, Position.fields]
  | cons second fields =>
    let pos : Position := { Position.start with field := [], record := [Text.strip cs] }
    refine ⟨(pos.afterFields d q second fields).sawQuote, ?_⟩
    have hfields : scanFrom (.ofChars d q) true pos _ = _ :=
      scanFrom_fields_append h rfl rfl second fields (head?_ending h hending rest)
    rw [intercalate_cons_eq, List.append_assoc] at hfields
    have hline : furtherFields d q (second :: fields) =
        d :: (quoteChars [d] [q] second ++ furtherFields d q fields) := by
      simp [furtherFields]
    rw [hline, List.cons_append, List.append_assoc, scanFrom_delimiter h.distinct rfl]
    have hpos : (Position.endField { Position.start with
        field := pieces false cs ++ Position.start.field }) = pos := by
      simp [Position.endField, Position.start, pos]
    rw [hpos, hfields, scanFrom_ending h (inside_afterFields rfl second fields) hending hrest,
      fields_afterFields]
    rfl

lemma length_strip_le (cs : List Char) : (Text.strip cs).length ≤ cs.length := by
  have hend : (Text.stripEnd (Text.stripStart cs)).length ≤ (Text.stripStart cs).length := by
    have hdrop := (List.dropWhile_sublist Text.isBlank
      (l := (Text.stripStart cs).reverse)).length_le
    simpa [Text.stripEnd] using hdrop
  have hstart : (Text.stripStart cs).length ≤ cs.length :=
    (List.dropWhile_sublist Text.isBlank).length_le
  exact hend.trans hstart

/-- Without the mark that it began with, a written table is scanned as another one. -/
theorem scanFrom_withoutMark_ne (h : ProperMarks d q) {records : List Fields}
    (hrecords : ∀ r ∈ records, r ≠ []) (hmark : BeginsWithBareMark d q records) :
    (scanFrom (.ofChars d q) true .start
      (withoutMarkChar (tableChars d q "\n".toList records))).records ≠ records := by
  obtain ⟨cs, fields, rest, rfl, plain⟩ := hmark
  have hending : "\n" ∈ lineEndings := by decide
  have hrest : ∀ r ∈ rest, r ≠ [] := fun r hr => hrecords r (List.mem_cons_of_mem _ hr)
  have hline : withoutMarkChar (tableChars d q "\n".toList (((markChar :: cs) :: fields) :: rest)) =
      cs ++ (furtherFields d q fields ++ ("\n".toList ++ tableChars d q "\n".toList rest)) := by
    have hquotes := needsQuotes_eq_false_iff.2 plain
    have hfirst : quoteChars [d] [q] (markChar :: cs) = markChar :: cs := by
      rw [quoteChars, hquotes, if_neg Bool.false_ne_true]
    rw [tableChars, List.flatMap_cons, lineChars, if_neg (by simp), intercalate_cons_eq, hfirst]
    simp [tableChars]
  have notMem {c : Char} (hc : c ∉ markChar :: cs) : c ∉ cs := fun hmem =>
    hc (List.mem_cons_of_mem _ hmem)
  obtain ⟨sawQuote, hscan⟩ := scanFrom_cutLine h (notMem plain.delimiter) (notMem plain.quote)
    (notMem plain.cr) (notMem plain.lf) fields (head?_tableChars h hrest)
  rw [hline, hscan, scanFrom_tableChars h hending rest hrest, Scanned.push]
  split
  · intro hequal
    have hlength := congrArg List.length hequal
    simp at hlength
  · intro hequal
    have hfirst : Text.strip cs = markChar :: cs := by
      simpa using congrArg (fun records => records.head?.bind List.head?) hequal
    have hlength := length_strip_le cs
    rw [hfirst, List.length_cons] at hlength
    omega

def recordsOf (dialect : Dialect) (data : ByteArray) : List (List String) :=
  (scanRecords dialect.marks (Reading.decodeText data).value).records

def textOf (dialect : Dialect) (records : List (List String)) : String :=
  writeRecords (String.ofList [dialect.delimiter]) (String.ofList [dialect.quote]) "\n" records

lemma read_content (dialect : Dialect) (data : ByteArray) :
    ∃ result, read dialect data .standard = .ok result ∧
      result.value.content = tableDocument (recordsOf dialect data) :=
  ⟨_, rfl, rfl⟩

/-- With a table in the document, its rows are written, a record for each. -/
lemma write_of_terminator (dialect : Dialect) {doc : Document} {options : WriteOptions}
    {table : Node} {others : List Node} {ending : String}
    (h : doc.content.tables = table :: others)
    (hending : terminator (Settings.merge writeSettings options.extra) = .ok ending) :
    write dialect doc options = .ok ⟨writeRecords (String.ofList [dialect.delimiter])
        (String.ofList [dialect.quote]) ending (table.children.map recordOf),
      Notice.settle (tableNotices doc (table :: others) ++
        table.children.flatMap fun row => row.children.flatMap cellNotices)⟩ := by
  rw [write, h]
  dsimp only
  rw [hending]
  by_cases hempty : table.children.isEmpty = true
  · rw [if_pos hempty, List.isEmpty_iff.1 hempty]
    rfl
  · rw [if_neg hempty]

lemma write_of_tables (dialect : Dialect) {doc : Document} {table : Node} {others : List Node}
    (h : doc.content.tables = table :: others) :
    write dialect doc .standard = .ok ⟨textOf dialect (table.children.map recordOf),
      Notice.settle (tableNotices doc (table :: others) ++
        table.children.flatMap fun row => row.children.flatMap cellNotices)⟩ :=
  write_of_terminator dialect h rfl

lemma write_tableDocument (dialect : Dialect) {doc : Document} {records : List (List String)}
    (h : doc.content = tableDocument records) :
    ∃ written, write dialect doc .standard = .ok written ∧
      written.value = textOf dialect records := by
  have htables : doc.content.tables = [.table (rowsOf true records)] := by
    rw [h, Node.tables_eq]
    exact congrArg (· ++ []) (Node.tables_eq (.table (rowsOf true records)))
  have hrows : (Node.table (rowsOf true records)).children = rowsOf true records := rfl
  refine ⟨_, write_of_tables dialect htables, ?_⟩
  dsimp only
  rw [hrows, map_recordOf_rowsOf]

/-- Reading, writing and reading again always succeed. -/
theorem exists_reread (dialect : Dialect) (data : ByteArray) :
    ∃ first written second, read dialect data .standard = .ok first ∧
      write dialect first.value .standard = .ok written ∧
      read dialect written.value.toUTF8 .standard = .ok second ∧
      first.value.content = tableDocument (recordsOf dialect data) ∧
      second.value.content = tableDocument
        (recordsOf dialect (textOf dialect (recordsOf dialect data)).toUTF8) := by
  obtain ⟨first, hfirst, hcontent⟩ := read_content dialect data
  obtain ⟨written, hwritten, htext⟩ := write_tableDocument dialect hcontent
  obtain ⟨second, hsecond, hagain⟩ := read_content dialect written.value.toUTF8
  rw [htext] at hagain
  exact ⟨first, written, second, hfirst, hwritten, hsecond, hcontent, hagain⟩

/-- Whether the first field of the first record begins with the byte order mark and is written
without quotes. -/
def LosesMark (dialect : Dialect) (records : List (List String)) : Prop :=
  BeginsWithBareMark dialect.delimiter dialect.quote (records.map (·.map String.toList))

theorem recordsOf_textOf_iff (dialect : Dialect) {records : List (List String)}
    (hrecords : ∀ r ∈ records, r ≠ []) :
    recordsOf dialect (textOf dialect records).toUTF8 = records ↔ ¬LosesMark dialect records := by
  have hchars : ∀ r ∈ records.map (·.map String.toList), r ≠ [] := by
    intro r hr
    obtain ⟨record, hmem, rfl⟩ := List.mem_map.1 hr
    simpa using hrecords record hmem
  have htext : (textOf dialect records).toList = tableChars dialect.delimiter dialect.quote
      "\n".toList (records.map (·.map String.toList)) := toList_writeRecords _ _ _ _
  have hmarks : dialect.marks = .ofChars dialect.delimiter dialect.quote := rfl
  have hproper := properMarks dialect
  constructor
  · intro hequal hmark
    rw [recordsOf, Reading.decodeText_toUTF8, Outcome.ok, htext, scanRecords,
      String.toList_ofList, hmarks] at hequal
    have hback := congrArg (List.map (List.map String.toList)) hequal
    refine scanFrom_withoutMark_ne hproper hchars hmark ?_
    simpa [Function.comp_def] using hback
  · intro hmark
    have hhead : (textOf dialect records).toList.head? ≠ some markChar := by
      rw [htext]
      refine mt (beginsWithBareMark_of_head? ?_ ?_ hchars) hmark
      · cases dialect <;> decide
      · cases dialect <;> decide
    have hending : "\n" ∈ lineEndings := by decide
    rw [recordsOf, Reading.decodeText_toUTF8_of_head?_ne hhead, Outcome.ok, scanRecords, htext,
      hmarks, scanFrom_tableChars hproper hending _ hchars]
    simp [Function.comp_def]

/-- What was read from any bytes is written and read again, and its table is the same if and only if
it does not begin with a bare byte order mark. -/
theorem read_write_read_iff (dialect : Dialect) (data : ByteArray) :
    ∃ first written second, read dialect data .standard = .ok first ∧
      write dialect first.value .standard = .ok written ∧
      read dialect written.value.toUTF8 .standard = .ok second ∧
      (second.value.content = first.value.content ↔
        ¬LosesMark dialect (recordsOf dialect data)) := by
  obtain ⟨first, written, second, hfirst, hwritten, hsecond, hcontent, hagain⟩ :=
    exists_reread dialect data
  refine ⟨first, written, second, hfirst, hwritten, hsecond, ?_⟩
  rw [hcontent, hagain, tableDocument_inj]
  exact recordsOf_textOf_iff dialect fun r hr => ne_nil_of_mem_scanRecords hr

/-- Of two marks before a letter the first is no text, and the second is lost on the way. -/
theorem read_write_read_doubledMark_ne :
    ∃ first written second,
      read .comma ⟨#[0xef, 0xbb, 0xbf, 0xef, 0xbb, 0xbf, 0x61]⟩ .standard = .ok first ∧
      write .comma first.value .standard = .ok written ∧
      read .comma written.value.toUTF8 .standard = .ok second ∧
      second.value.content ≠ first.value.content := by
  obtain ⟨first, written, second, hfirst, hwritten, hsecond, hcontent, hagain⟩ :=
    exists_reread .comma ⟨#[0xef, 0xbb, 0xbf, 0xef, 0xbb, 0xbf, 0x61]⟩
  refine ⟨first, written, second, hfirst, hwritten, hsecond, ?_⟩
  have hrecords : recordsOf .comma ⟨#[0xef, 0xbb, 0xbf, 0xef, 0xbb, 0xbf, 0x61]⟩ =
      [["\ufeffa"]] := by
    decide +kernel
  have hmark : LosesMark .comma [["\ufeffa"]] :=
    ⟨['a'], [], [], by decide, by constructor <;> decide⟩
  rw [hcontent, hagain, hrecords, Ne, tableDocument_inj, recordsOf_textOf_iff .comma (by decide)]
  exact not_not_intro hmark

end Interchange.Delimited
