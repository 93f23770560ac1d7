import Interchange.Delimited.Records
import Interchange.Proofs.Text.Letters
import Mathlib.Tactic

/-!
# What one step of a scan does

One equation for each kind of character that a scan can meet, and from them what a run of characters
of one kind does to the position. With a delimiter and a quote of one character each, a field needs
quotes exactly when one of a few characters stands in it or a blank at an end, and doubling works
character by character. Nothing after this module unfolds the scan.
-/
namespace Interchange.Delimited

abbrev Marks.ofChars (d q : Char) : Marks := ⟨some d, some q⟩

/-- A delimiter and a quote that a reader can tell from each other and from a line break. -/
structure ProperMarks (d q : Char) : Prop where
  distinct : d ≠ q
  delimiter_ne_lf : d ≠ '\n'
  delimiter_ne_cr : d ≠ '\r'
  quote_ne_lf : q ≠ '\n'
  quote_ne_cr : q ≠ '\r'

lemma occursIn_singleton (c : Char) (cs : List Char) : occursIn [c] cs = true ↔ c ∈ cs := by
  induction cs with
  | nil => simp [occursIn]
  | cons d cs ih => simp [occursIn, List.isPrefixOf, ih]

lemma doubled_cons_self (q : Char) (cs : List Char) :
    doubled [q] (q :: cs) = q :: q :: doubled [q] cs := by
  rw [doubled]
  simp [List.isPrefixOf]

lemma doubled_cons_of_ne {q c : Char} (h : c ≠ q) (cs : List Char) :
    doubled [q] (c :: cs) = c :: doubled [q] cs := by
  rw [doubled]
  simp [List.isPrefixOf, Ne.symm h]

/-- A field that is written as it is. -/
structure IsPlain (d q : Char) (cs : List Char) : Prop where
  delimiter : d ∉ cs
  quote : q ∉ cs
  lf : '\n' ∉ cs
  cr : '\r' ∉ cs
  trimmed : Text.strip cs = cs

theorem needsQuotes_eq_false_iff {d q : Char} {cs : List Char} :
    needsQuotes [d] [q] cs = false ↔ IsPlain d q cs := by
  simp only [needsQuotes, Bool.or_eq_false_iff, bne_eq_false_iff_eq]
  rw [← Bool.not_eq_true, occursIn_singleton, ← Bool.not_eq_true, occursIn_singleton,
    List.contains_eq_mem, List.contains_eq_mem, decide_eq_false_iff_not, decide_eq_false_iff_not]
  constructor
  · rintro ⟨⟨⟨⟨hd, hq⟩, hl⟩, hc⟩, hs⟩
    exact ⟨hd, hq, hl, hc, hs.symm⟩
  · intro p
    exact ⟨⟨⟨⟨p.delimiter, p.quote⟩, p.lf⟩, p.cr⟩, p.trimmed.symm⟩

variable {d q : Char} {splits : Bool} {pos : Position}

lemma scanFrom_nil (marks : Marks) : scanFrom marks splits pos [] =
    if pos.isStart then ⟨[], pos.inside⟩ else .push pos.fields pos.sawQuote ⟨[], pos.inside⟩ := by
  rw [scanFrom.eq_def]

lemma scanFrom_quoted (hin : pos.inside = true) {c : Char} (hc : c ≠ q) (cs : List Char) :
    scanFrom (.ofChars d q) splits pos (c :: cs) =
      scanFrom (.ofChars d q) splits (pos.push c true) cs := by
  rw [scanFrom.eq_def]
  simp [hin, Ne.symm hc]

lemma scanFrom_doubled (hin : pos.inside = true) (cs : List Char) :
    scanFrom (.ofChars d q) splits pos (q :: q :: cs) =
      scanFrom (.ofChars d q) splits (pos.push q true) cs := by
  rw [scanFrom.eq_def]
  simp [hin]

lemma scanFrom_close (hin : pos.inside = true) {cs : List Char} (hcs : cs.head? ≠ some q) :
    scanFrom (.ofChars d q) splits pos (q :: cs) =
      scanFrom (.ofChars d q) splits { pos with inside := false } cs := by
  cases cs with
  | nil =>
    rw [scanFrom.eq_def]
    simp [hin]
  | cons c cs =>
    have hc : c ≠ q := by simpa using hcs
    rw [scanFrom.eq_def]
    simp [hin, hc]

lemma scanFrom_open (hout : pos.inside = false) (cs : List Char) :
    scanFrom (.ofChars d q) splits pos (q :: cs) =
      scanFrom (.ofChars d q) splits { pos with inside := true, sawQuote := true } cs := by
  rw [scanFrom.eq_def]
  simp [hout]

lemma scanFrom_delimiter (h : d ≠ q) (hout : pos.inside = false) (cs : List Char) :
    scanFrom (.ofChars d q) splits pos (d :: cs) =
      scanFrom (.ofChars d q) splits pos.endField cs := by
  rw [scanFrom.eq_def]
  simp [hout, Ne.symm h]

lemma scanFrom_plain (hout : pos.inside = false) {c : Char} (hd : c ≠ d) (hq : c ≠ q)
    (hc : c ≠ '\r') (hl : c ≠ '\n') (cs : List Char) :
    scanFrom (.ofChars d q) splits pos (c :: cs) =
      scanFrom (.ofChars d q) splits (pos.push c false) cs := by
  rw [scanFrom.eq_def]
  simp [hout, Ne.symm hd, Ne.symm hq, hc, hl]

lemma scanFrom_break (h : ProperMarks d q) (hout : pos.inside = false) {c : Char}
    (hc : c = '\r' ∨ c = '\n') (cs : List Char) :
    scanFrom (.ofChars d q) true pos (c :: cs) =
      .push pos.fields pos.sawQuote (scanFrom (.ofChars d q) true .start (afterBreak c cs)) := by
  have hd : d ≠ c := by rcases hc with rfl | rfl <;> simp [h.delimiter_ne_cr, h.delimiter_ne_lf]
  have hq : q ≠ c := by rcases hc with rfl | rfl <;> simp [h.quote_ne_cr, h.quote_ne_lf]
  rw [scanFrom.eq_def]
  simp [hout, hd, hq, hc]

/-- The pieces of a run of characters, last first. -/
def pieces (quoted : Bool) (cs : List Char) : List Piece := (cs.map (Piece.mk · quoted)).reverse

lemma pieces_cons (quoted : Bool) (c : Char) (cs : List Char) (field : List Piece) :
    pieces quoted (c :: cs) ++ field = pieces quoted cs ++ ⟨c, quoted⟩ :: field := by
  simp [pieces]

/-- Between quotes, what was doubled gives the characters that it came from, up to the quote that
closes. -/
theorem scanFrom_doubled_append (hin : pos.inside = true) (cs : List Char) {rest : List Char}
    (hrest : rest.head? ≠ some q) :
    scanFrom (.ofChars d q) splits pos (doubled [q] cs ++ q :: rest) =
      scanFrom (.ofChars d q) splits
        { pos with inside := false, field := pieces true cs ++ pos.field } rest := by
  induction cs generalizing pos with
  | nil =>
    rw [doubled, List.nil_append, scanFrom_close hin hrest]
    rfl
  | cons c cs ih =>
    have step : scanFrom (.ofChars d q) splits pos (doubled [q] (c :: cs) ++ q :: rest) =
        scanFrom (.ofChars d q) splits (pos.push c true) (doubled [q] cs ++ q :: rest) := by
      by_cases hc : c = q
      · subst hc
        rw [doubled_cons_self, List.cons_append, List.cons_append, scanFrom_doubled hin]
      · rw [doubled_cons_of_ne hc, List.cons_append, scanFrom_quoted hin hc]
    rw [step, @ih (pos.push c true) hin, pieces_cons]
    rfl

theorem scanFrom_plain_append (hout : pos.inside = false) {cs : List Char} (rest : List Char)
    (hd : d ∉ cs) (hq : q ∉ cs) (hc : '\r' ∉ cs) (hl : '\n' ∉ cs) :
    scanFrom (.ofChars d q) splits pos (cs ++ rest) =
      scanFrom (.ofChars d q) splits { pos with field := pieces false cs ++ pos.field } rest := by
  induction cs generalizing pos with
  | nil => rfl
  | cons c cs ih =>
    simp only [List.mem_cons, not_or] at hd hq hc hl
    rw [List.cons_append, scanFrom_plain hout (Ne.symm hd.1) (Ne.symm hq.1) (Ne.symm hc.1)
      (Ne.symm hl.1), @ih (pos.push c false) hout hd.2 hq.2 hc.2 hl.2, pieces_cons]
    rfl

/-- Nothing between quotes is trimmed. -/
@[simp] theorem finishField_quoted (cs : List Char) : finishField (pieces true cs) = cs := by
  have kept (l : List Char) : (l.map (Piece.mk · true)).dropWhile Piece.isMargin =
      l.map (Piece.mk · true) := by
    cases l <;> simp [Piece.isMargin]
  rw [finishField, pieces, ← List.map_reverse, kept, ← List.map_reverse, List.reverse_reverse, kept,
    List.map_map]
  exact List.map_id cs

/-- A field without quotes is trimmed like any text. -/
@[simp] theorem finishField_unquoted (cs : List Char) :
    finishField (pieces false cs) = Text.strip cs := by
  have blank (l : List Char) : (l.map (Piece.mk · false)).dropWhile Piece.isMargin =
      (l.dropWhile Text.isBlank).map (Piece.mk · false) := by
    rw [List.dropWhile_map]
    rfl
  rw [finishField, pieces, ← List.map_reverse, blank, ← List.map_reverse, blank, List.map_map,
    ← Text.stripStart_stripEnd]
  exact List.map_id _

end Interchange.Delimited
