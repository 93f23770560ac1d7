import Interchange.Proofs.Text.Letters
import Interchange.Proofs.Text.Paragraphs

/-!
# Words in their lines and paragraphs

Taking a text apart into lines or paragraphs splits no word, and keeps all words in their order. Two
words are in one paragraph exactly when no blank line is between the lines that they stand in, and
what a paragraph loses are blanks: each run of them is one space.
-/
namespace Interchange.Text

/-- The text with one space for each run of blanks. -/
def squeeze : List Char → List Char
  | [] => []
  | c :: cs =>
    if !isBlank c then c :: squeeze cs
    else if cs.head?.any isBlank then squeeze cs
    else ' ' :: squeeze cs

lemma squeeze_letter_cons {c : Char} (hc : isBlank c = false) (cs : List Char) :
    squeeze (c :: cs) = c :: squeeze cs := by
  simp [squeeze, hc]

lemma strip_squeeze_blank_cons {c : Char} (hc : isBlank c = true) (cs : List Char) :
    strip (squeeze (c :: cs)) = strip (squeeze cs) := by
  rw [squeeze, hc]
  split
  · contradiction
  · split
    · rfl
    · exact strip_blank_cons (by decide) (squeeze cs)

/-- A run of blanks becomes one space. The induction is on the blanks behind the first one. -/
lemma exists_squeeze_blank_cons {c : Char} (hc : isBlank c = true) (cs : List Char) :
    ∃ rest, squeeze (c :: cs) = ' ' :: rest ∧ stripStart rest = rest := by
  induction cs generalizing c with
  | nil => exact ⟨[], by simp [squeeze, hc], rfl⟩
  | cons d cs ih =>
    cases hd : isBlank d with
    | true =>
      obtain ⟨rest, hrest, hkept⟩ := ih hd
      have hsame : squeeze (c :: d :: cs) = squeeze (d :: cs) := by
        rw [squeeze]
        simp [hc, hd]
      exact ⟨rest, hsame.trans hrest, hkept⟩
    | false =>
      refine ⟨squeeze (d :: cs), by rw [squeeze]; simp [hc, hd], ?_⟩
      rw [squeeze_letter_cons hd, stripStart, List.dropWhile_cons_of_neg (by simp [hd])]

/-- Collapsed text is what is left when each run of blanks becomes one space and the ends are
trimmed. -/
theorem strip_squeeze (cs : List Char) : strip (squeeze cs) = collapse cs := by
  induction cs with
  | nil => rfl
  | cons c cs ih =>
    cases hc : isBlank c with
    | true => rw [strip_squeeze_blank_cons hc, ih, collapse, collapse, words_blank_cons hc]
    | false =>
      rw [squeeze_letter_cons hc, strip_letter_cons hc]
      cases cs with
      | nil =>
        rw [collapse, words_letter_cons hc (by simp), words_nil, List.intercalate_singleton]
        rfl
      | cons d cs =>
        cases hd : isBlank d with
        | true =>
          obtain ⟨rest, hrest, hkept⟩ := exists_squeeze_blank_cons hd cs
          have hspace : ∀ e ∈ (d :: cs).head?, isBlank e = true := by simpa using hd
          rw [hrest, strip_blank_cons (by decide), strip, hkept] at ih
          rw [hrest, stripEnd_space_cons, ih, collapse, collapse, words_letter_cons hc hspace]
          cases hwords : words (d :: cs) with
          | nil => rfl
          | cons w ws =>
            have hw : IsWord w := isWord_of_mem_words (hwords ▸ List.mem_cons_self)
            have hfilled : List.intercalate [' '] (w :: ws) ≠ [] := by
              rw [Ne, intercalate_eq_nil_iff (by simp)]
              simp [hw.1]
            rw [if_neg (by simpa using hfilled), List.intercalate_cons_cons]
            rfl
        | false =>
          rw [squeeze_letter_cons hd, strip_letter_cons hd] at ih
          rw [squeeze_letter_cons hd, stripEnd_letter_cons hd, ih, collapse, collapse,
            words_letter_letter hc hd]
          cases hwords : words (d :: cs) with
          | nil => exact absurd hwords (words_ne_nil_of_head hd cs)
          | cons w ws => cases ws <;> simp

lemma eq_nil_of_splitLines {cs : List Char} (h : splitLines cs = []) : cs = [] := by
  revert h
  fun_cases splitLines cs <;> simp_all

/-- The first line ends before the first line break. -/
lemma head?_of_splitLines {cs line : List Char} {lines : List (List Char)}
    (h : splitLines cs = line :: lines) : (∀ d ∈ cs.head?, isBlank d = true) ↔
      ∀ d ∈ line.head?, isBlank d = true := by
  revert h
  fun_cases splitLines cs with
  | case1 => simp
  | case2 cs =>
    intro h
    obtain ⟨rfl, -⟩ := List.cons.inj h
    simp [isBlank_of_isLineBreak '\r' rfl]
  | case3 c cs _ hbreak =>
    intro h
    obtain ⟨rfl, -⟩ := List.cons.inj h
    simp [isBlank_of_isLineBreak c hbreak]
  | case4 c cs | case5 c cs =>
    intro h
    obtain ⟨rfl, -⟩ := List.cons.inj h
    simp

theorem flatMap_words_splitLines (cs : List Char) :
    (splitLines cs).flatMap words = words cs := by
  fun_induction splitLines cs with
  | case1 => rfl
  | case2 cs ih =>
    rw [words_blank_cons (by decide), words_blank_cons (by decide)]
    exact ih
  | case3 c cs _ hbreak ih =>
    rw [words_blank_cons (isBlank_of_isLineBreak c hbreak)]
    exact ih
  | case4 c cs _ _ hnone ih =>
    rw [eq_nil_of_splitLines hnone]
    simp
  | case5 c cs _ _ line lines hlines ih =>
    rw [hlines, List.flatMap_cons] at ih
    rw [List.flatMap_cons, words_cons_append ih.symm (head?_of_splitLines hlines)]

/-- The words of several texts, each with the number of its text. -/
def placedWords (texts : List (List Char)) : List (ℕ × List Char) :=
  texts.zipIdx.flatMap fun (text, n) => (words text).map (n, ·)

/-- The number of the text that a word stands in, by the number of the word. -/
def placeOf? (texts : List (List Char)) (i : ℕ) : Option ℕ := (placedWords texts)[i]?.map Prod.fst

lemma placedWords_cons (text : List Char) (texts : List (List Char)) :
    placedWords (text :: texts) = (words text).map (0, ·) ++
      (placedWords texts).map fun (n, word) => (n + 1, word) := by
  simp [placedWords, List.zipIdx_succ, List.flatMap_map, List.map_flatMap, Function.comp_def]

lemma map_snd_placedWords (texts : List (List Char)) :
    (placedWords texts).map Prod.snd = texts.flatMap words := by
  induction texts with
  | nil => rfl
  | cons text texts ih =>
    rw [placedWords_cons, List.map_append, List.map_map, List.map_map, List.flatMap_cons, ← ih]
    simp [Function.comp_def]

/-- A word stands in the text that it is placed in. -/
lemma of_mem_placedWords {texts : List (List Char)} {n : ℕ} {word : List Char}
    (h : (n, word) ∈ placedWords texts) : ∃ text, texts[n]? = some text ∧ word ∈ words text := by
  obtain ⟨⟨text, m⟩, htext, hword⟩ := List.mem_flatMap.1 h
  obtain ⟨word, hmem, heq⟩ := List.mem_map.1 hword
  obtain ⟨rfl, rfl⟩ := Prod.mk.inj heq
  exact ⟨text, List.mem_zipIdx_iff_getElem?.1 htext, hmem⟩

lemma pairwise_placedWords (texts : List (List Char)) :
    (placedWords texts).Pairwise fun p q => p.1 ≤ q.1 := by
  induction texts with
  | nil => exact .nil
  | cons text texts ih =>
    rw [placedWords_cons, List.pairwise_append, List.pairwise_map, List.pairwise_map]
    refine ⟨List.pairwise_of_forall fun _ _ => le_rfl, ih.imp Nat.succ_le_succ, ?_⟩
    intro p hp q _
    obtain ⟨word, -, rfl⟩ := List.mem_map.1 hp
    exact Nat.zero_le q.1

section Groups

variable {separates : List Char → Bool} {line next : List Char} {lines : List (List Char)}

/-- The number of the group that a line falls into, by the number of the line. -/
def groupOf (separates : List Char → Bool) : List (List Char) → ℕ → ℕ
  | [], _ => 0
  | _ :: _, 0 => 0
  | line :: lines, n + 1 =>
    if separates line then groupOf separates lines n
    else if lines.head?.any separates then groupOf separates lines n + 1
    else groupOf separates lines n

/-- A line before another that does not separate either goes into its group. -/
lemma groupLines_cons_cons (hline : separates line = false) (hnext : separates next = false)
    (lines : List (List Char)) :
    ∃ group groups, groupLines separates (next :: lines) = group :: groups ∧
      groupLines separates (line :: next :: lines) = (line :: group) :: groups := by
  have hne : groupLines separates (next :: lines) ≠ [] := by
    rw [groupLines.eq_def]
    simp only [hnext, Bool.false_eq_true, if_false]
    split
    · split <;> simp
    · simp
  obtain ⟨group, groups, hgroups⟩ := List.exists_cons_of_ne_nil hne
  refine ⟨group, groups, hgroups, ?_⟩
  rw [groupLines.eq_def]
  simp [hline, hnext, hgroups]

/-- No line between the two with the given numbers separates. -/
def Unseparated (separates : List Char → Bool) (lines : List (List Char)) (a b : ℕ) : Prop :=
  ∀ n line, a < n → n < b → lines[n]? = some line → separates line = false

lemma unseparated_cons_succ {a b : ℕ} :
    Unseparated separates (line :: lines) (a + 1) (b + 1) ↔ Unseparated separates lines a b := by
  constructor
  · intro h n found hfirst hlast hfound
    exact h (n + 1) found (by omega) (by omega) hfound
  · intro h n found hfirst hlast hfound
    obtain ⟨m, rfl⟩ := Nat.exists_eq_succ_of_ne_zero (Nat.ne_zero_of_lt hfirst)
    exact h m found (by omega) (by omega) hfound

lemma unseparated_cons_zero (hnext : separates next = false) {b : ℕ} :
    Unseparated separates (line :: next :: lines) 0 (b + 1) ↔
      Unseparated separates (next :: lines) 0 b := by
  constructor
  · intro h n found hfirst hlast hfound
    exact h (n + 1) found (by omega) (by omega) hfound
  · intro h n found hfirst hlast hfound
    match n, hfound with
    | 1, hfound =>
      obtain rfl := Option.some.inj hfound
      exact hnext
    | n + 2, hfound => exact h (n + 1) found (by omega) (by omega) hfound

/-- Two lines that do not separate are in one group just if no line between them does. -/
theorem groupOf_eq_iff {a b : ℕ} (hab : a ≤ b)
    (ha : ∃ line, lines[a]? = some line ∧ separates line = false)
    (hb : ∃ line, lines[b]? = some line ∧ separates line = false) :
    groupOf separates lines a = groupOf separates lines b ↔ Unseparated separates lines a b := by
  induction lines generalizing a b with
  | nil => simp at hb
  | cons line lines ih =>
    match a, b with
    | 0, 0 => exact iff_of_true rfl fun n _ _ hlast => absurd hlast (Nat.not_lt_zero n)
    | a + 1, b + 1 =>
      rw [unseparated_cons_succ, ← ih (Nat.le_of_succ_le_succ hab) ha hb, groupOf, groupOf]
      split_ifs <;> simp
    | 0, b + 1 =>
      have hline : separates line = false := by simpa using ha
      cases lines with
      | nil => simp at hb
      | cons next lines =>
        cases hnext : separates next with
        | false =>
          rw [unseparated_cons_zero hnext, ← ih (Nat.zero_le b) ⟨next, rfl, hnext⟩ hb]
          simp [groupOf, hline, hnext]
        | true =>
          -- The next line separates, so the second line is not that one.
          have hpos : b ≠ 0 := by
            rintro rfl
            simp [hnext] at hb
          refine iff_of_false (by simp [groupOf, hline, hnext]) fun h => ?_
          have hfalse := h 1 next Nat.one_pos (by omega) rfl
          rw [hnext] at hfalse
          cases hfalse

end Groups

lemma words_paragraph (group : List (List Char)) :
    words (collapse (List.intercalate [' '] group)) = group.flatMap words := by
  rw [collapse, words_intercalate fun w hw => isWord_of_mem_words hw,
    words_intercalate_eq_flatMap]

/-- Every word is in the paragraph that the group of its line makes. -/
theorem placedWords_groupLines (lines : List (List Char)) :
    placedWords ((groupLines isBlankLine lines).map fun group =>
        collapse (List.intercalate [' '] group)) =
      (placedWords lines).map fun (n, word) => (groupOf isBlankLine lines n, word) := by
  induction lines with
  | nil => rfl
  | cons line lines ih =>
    rw [placedWords_cons line, List.map_append, List.map_map, List.map_map]
    cases hline : isBlankLine line with
    | true =>
      rw [groupLines_cons_of_separates hline, ih, words_eq_nil_iff.2 hline]
      simp [groupOf, hline, Function.comp_def]
    | false =>
      cases lines with
      | nil =>
        rw [groupLines_cons hline (by simp), List.map_cons, placedWords_cons, words_paragraph]
        simp [groupLines, placedWords, groupOf]
      | cons next lines =>
        cases hnext : isBlankLine next with
        | true =>
          rw [groupLines_cons hline (by simpa using hnext), List.map_cons, placedWords_cons,
            words_paragraph, ih]
          simp [groupOf, hline, hnext, Function.comp_def]
        | false =>
          obtain ⟨group, groups, hgroups, hlonger⟩ :=
            groupLines_cons_cons hline hnext lines
          rw [hgroups, List.map_cons, placedWords_cons, words_paragraph] at ih
          rw [hlonger, List.map_cons, placedWords_cons, words_paragraph, List.flatMap_cons,
            List.map_append, List.append_assoc, ih]
          simp [groupOf, hline, hnext, Function.comp_def]

lemma placedWords_paragraphs (cs : List Char) :
    placedWords (paragraphs cs) = (placedWords (splitLines cs)).map fun (n, word) =>
      (groupOf isBlankLine (splitLines cs) n, word) :=
  placedWords_groupLines (splitLines cs)

/-- The paragraphs have the words of the text. -/
theorem flatMap_words_paragraphs (cs : List Char) : (paragraphs cs).flatMap words = words cs := by
  rw [← map_snd_placedWords, placedWords_paragraphs, List.map_map, ← flatMap_words_splitLines,
    ← map_snd_placedWords (splitLines cs)]
  rfl

lemma placeOf?_paragraphs {cs : List Char} {i a : ℕ} (h : placeOf? (splitLines cs) i = some a) :
    placeOf? (paragraphs cs) i = some (groupOf isBlankLine (splitLines cs) a) := by
  obtain ⟨⟨n, word⟩, hfound, rfl⟩ := Option.map_eq_some_iff.1 h
  rw [placeOf?, placedWords_paragraphs, List.getElem?_map, hfound]
  rfl

/-- A line that a word stands in is not blank. -/
lemma exists_line_of_placeOf? {texts : List (List Char)} {i a : ℕ} (h : placeOf? texts i = some a) :
    ∃ line, texts[a]? = some line ∧ isBlankLine line = false := by
  obtain ⟨⟨n, word⟩, hfound, rfl⟩ := Option.map_eq_some_iff.1 h
  obtain ⟨line, hline, hword⟩ := of_mem_placedWords (List.mem_of_getElem? hfound)
  refine ⟨line, hline, ?_⟩
  by_contra hblank
  rw [words_eq_nil_iff.2 (by simpa using hblank)] at hword
  cases hword

lemma placeOf?_le {texts : List (List Char)} {i j a b : ℕ} (hij : i < j)
    (ha : placeOf? texts i = some a) (hb : placeOf? texts j = some b) : a ≤ b := by
  obtain ⟨⟨n, word⟩, hfirst, rfl⟩ := Option.map_eq_some_iff.1 ha
  obtain ⟨⟨m, other⟩, hsecond, rfl⟩ := Option.map_eq_some_iff.1 hb
  obtain ⟨hi, hgetFirst⟩ := List.getElem?_eq_some_iff.1 hfirst
  obtain ⟨hj, hgetSecond⟩ := List.getElem?_eq_some_iff.1 hsecond
  have hle := List.pairwise_iff_getElem.1 (pairwise_placedWords texts) i j hi hj hij
  rwa [hgetFirst, hgetSecond] at hle

/-- Two words are in one paragraph just if no line between theirs is blank. -/
theorem placeOf?_paragraphs_eq_iff {cs : List Char} {i j a b : ℕ} (hij : i < j)
    (ha : placeOf? (splitLines cs) i = some a) (hb : placeOf? (splitLines cs) j = some b) :
    placeOf? (paragraphs cs) i = placeOf? (paragraphs cs) j ↔
      Unseparated isBlankLine (splitLines cs) a b := by
  rw [placeOf?_paragraphs ha, placeOf?_paragraphs hb, Option.some_inj]
  exact groupOf_eq_iff (placeOf?_le hij ha hb) (exists_line_of_placeOf? ha)
    (exists_line_of_placeOf? hb)

/-- The paragraphs with one space between them are the collapsed text. -/
theorem intercalate_paragraphs (cs : List Char) :
    List.intercalate [' '] (paragraphs cs) = collapse cs := by
  have hsame : paragraphs cs = ((paragraphs cs).map words).map (List.intercalate [' ']) := by
    rw [List.map_map]
    refine (List.map_id' _).symm.trans (List.map_congr_left fun text htext => ?_)
    exact (of_mem_paragraphs htext).2.symm
  have hwords : ∀ ws ∈ (paragraphs cs).map words, ws ≠ [] := by
    intro ws hws hnil
    obtain ⟨text, htext, rfl⟩ := List.mem_map.1 hws
    obtain ⟨hne, hcollapse⟩ := of_mem_paragraphs htext
    rw [collapse, hnil] at hcollapse
    exact hne hcollapse.symm
  rw [hsame, intercalate_map_intercalate hwords, ← List.flatMap_def, flatMap_words_paragraphs]
  rfl

/-- Blanks before a line feed are blank lines. A carriage return at their end belongs to it. -/
lemma exists_splitLines_blank {gap : List Char} (hgap : isBlankLine gap = true) (cs : List Char) :
    ∃ blank blanks, (∀ line ∈ blank :: blanks, isBlankLine line = true) ∧
      splitLines (gap ++ '\n' :: cs) = blank :: (blanks ++ splitLines cs) := by
  have halone : ∀ line ∈ [([] : List Char)], isBlankLine line = true := by simp [isBlankLine]
  fun_induction splitLines gap with
  | case1 => exact ⟨[], [], halone, splitLines_lineFeed_cons cs⟩
  | case2 gap ih =>
    have hrest : isBlankLine gap = true := by
      simp only [isBlankLine, List.all_cons, Bool.and_eq_true] at hgap
      exact hgap.2.2
    obtain ⟨blank, blanks, hblanks, hlines⟩ := ih hrest
    refine ⟨[], blank :: blanks, List.forall_mem_cons.2 ⟨rfl, hblanks⟩, ?_⟩
    rw [List.cons_append, List.cons_append, splitLines, hlines]
    rfl
  | case3 c gap hreturn hbreak ih =>
    obtain ⟨hc, hrest⟩ : isBlank c = true ∧ isBlankLine gap = true := by
      simpa [isBlankLine] using hgap
    obtain ⟨blank, blanks, hblanks, hlines⟩ := ih hrest
    by_cases hend : c = '\r' ∧ gap = []
    · obtain ⟨rfl, rfl⟩ := hend
      exact ⟨[], [], halone, by simp [splitLines]⟩
    · refine ⟨[], blank :: blanks, List.forall_mem_cons.2 ⟨rfl, hblanks⟩, ?_⟩
      rw [List.cons_append, splitLines_break_cons hbreak, hlines]
      · rfl
      · intro hcr hhead
        cases gap with
        | nil => exact hend ⟨hcr, rfl⟩
        | cons d gap =>
          obtain rfl : d = '\n' := by simpa using hhead
          exact hreturn gap hcr rfl
  | case4 c gap _ hbreak _ ih | case5 c gap _ hbreak _ _ _ ih =>
    obtain ⟨hc, hrest⟩ : isBlank c = true ∧ isBlankLine gap = true := by
      simpa [isBlankLine] using hgap
    obtain ⟨blank, blanks, hblanks, hlines⟩ := ih hrest
    obtain ⟨hblank, hothers⟩ := List.forall_mem_cons.1 hblanks
    refine ⟨c :: blank, blanks, List.forall_mem_cons.2 ⟨?_, hothers⟩, ?_⟩
    · rw [isBlankLine, List.all_cons, hc, Bool.true_and]
      exact hblank
    · exact splitLines_cons (by simpa using hbreak) hlines

lemma groupLines_blanks {blanks : List (List Char)}
    (h : ∀ line ∈ blanks, isBlankLine line = true) (lines : List (List Char)) :
    groupLines isBlankLine (blanks ++ lines) = groupLines isBlankLine lines := by
  induction blanks with
  | nil => rfl
  | cons blank blanks ih =>
    obtain ⟨hblank, hblanks⟩ := List.forall_mem_cons.1 h
    rw [List.cons_append, groupLines_cons_of_separates hblank, ih hblanks]

/-- A line that shows something, before blank lines, is a paragraph. -/
lemma paragraphs_append_gap {line gap : List Char} (hline : ∀ c ∈ line, isLineBreak c = false)
    (hshown : isBlankLine line = false) (hgap : isBlankLine gap = true) (cs : List Char) :
    paragraphs (line ++ '\n' :: (gap ++ '\n' :: cs)) = collapse line :: paragraphs cs := by
  obtain ⟨blank, blanks, hblanks, hlines⟩ := exists_splitLines_blank hgap cs
  have hnext : ∀ next ∈ (blank :: (blanks ++ splitLines cs)).head?, isBlankLine next = true := by
    simpa using hblanks blank List.mem_cons_self
  rw [paragraphs, splitLines_append hline, hlines, groupLines_cons hshown hnext,
    ← List.cons_append, groupLines_blanks hblanks, List.map_cons, List.intercalate_singleton]
  rfl

/-- Collapsed texts with blank lines between them are paragraphs. -/
theorem paragraphs_intercalate_gap {texts : List (List Char)}
    (h : ∀ text ∈ texts, text ≠ [] ∧ collapse text = text) {gap : List Char}
    (hgap : isBlankLine gap = true) :
    paragraphs (List.intercalate ('\n' :: gap ++ ['\n']) texts) = texts := by
  induction texts with
  | nil => rfl
  | cons text texts ih =>
    obtain ⟨⟨hne, hcollapse⟩, hrest⟩ := List.forall_mem_cons.1 h
    have hline : ∀ c ∈ text, isLineBreak c = false := fun c hc =>
      isLineBreak_of_mem_collapse (hcollapse.symm ▸ hc)
    have hshown : isBlankLine text = false := by
      by_contra hblank
      exact hne (hcollapse ▸ collapse_eq_nil_iff.2 (by simpa using hblank))
    cases texts with
    | nil =>
      rw [List.intercalate_singleton, paragraphs, splitLines_of_one hne hline,
        groupLines_cons hshown (by simp), List.map_cons, List.intercalate_singleton, hcollapse]
      rfl
    | cons next texts =>
      have hbehind : text ++ ('\n' :: gap ++ ['\n']) ++
          List.intercalate ('\n' :: gap ++ ['\n']) (next :: texts) =
          text ++ '\n' :: (gap ++ '\n' ::
            List.intercalate ('\n' :: gap ++ ['\n']) (next :: texts)) := by
        simp
      rw [List.intercalate_cons_cons, hbehind, paragraphs_append_gap hline hshown hgap, hcollapse,
        ih hrest]

/-- Nothing of a text is lost, merged or put in another place. Its paragraphs, joined, are the
collapsed text, which has one space for each run of blanks and none at the ends, and each is
collapsed text itself. They hold its words, and two words are in one paragraph just if no line
between theirs is blank. Its pages are the paragraphs of the pieces between form feeds. Paragraphs
with blank lines between them are found again. -/
theorem paragraphs_hold_words (cs : List Char) :
    (List.intercalate [' '] (paragraphs cs) = collapse cs ∧ collapse cs = strip (squeeze cs)) ∧
    (∀ text ∈ paragraphs cs, text ≠ [] ∧ collapse text = text) ∧
    ((placedWords (splitLines cs)).map Prod.snd = words cs ∧
      (placedWords (paragraphs cs)).map Prod.snd = words cs ∧
      ∀ i j a b, i < j →
        placeOf? (splitLines cs) i = some a → placeOf? (splitLines cs) j = some b →
        (placeOf? (paragraphs cs) i = placeOf? (paragraphs cs) j ↔
          Unseparated isBlankLine (splitLines cs) a b)) ∧
    ((pages cs).length = cs.count formFeed + 1 ∧
      ∃ pieces, pages cs = pieces.map paragraphs ∧ List.intercalate [formFeed] pieces = cs ∧
        ∀ piece ∈ pieces, formFeed ∉ piece) ∧
    ∀ gap, isBlankLine gap = true →
      paragraphs (List.intercalate ('\n' :: gap ++ ['\n']) (paragraphs cs)) = paragraphs cs := by
  refine ⟨⟨intercalate_paragraphs cs, (strip_squeeze cs).symm⟩, fun text => of_mem_paragraphs,
    ⟨?_, ?_, ?_⟩, ⟨?_, ?_⟩, ?_⟩
  · rw [map_snd_placedWords, flatMap_words_splitLines]
  · rw [map_snd_placedWords, flatMap_words_paragraphs]
  · intro i j a b hij ha hb
    exact placeOf?_paragraphs_eq_iff hij ha hb
  · rw [pages, List.length_map, length_splitAt]
  · exact ⟨splitAt formFeed cs, rfl, intercalate_splitAt formFeed cs,
      fun _ => notMem_of_mem_splitAt⟩
  · intro gap hgap
    exact paragraphs_intercalate_gap (fun text => of_mem_paragraphs) hgap

/-- Words of one line, of two lines in a row, and of lines with a blank one between them; the form
feed breaks a line and a page. -/
theorem paragraphs_hold_words_report :
    let cs := "one two\r\n three\n \t\nfour\x0cfive".toList
    (1 < 2 ∧ placeOf? (splitLines cs) 1 = some 0 ∧ placeOf? (splitLines cs) 2 = some 1 ∧
        placeOf? (splitLines cs) 3 = some 3 ∧ isBlankLine ['\t'] = true) ∧
      "one two three".toList ∈ paragraphs cs ∧
      (placeOf? (paragraphs cs) 1 = placeOf? (paragraphs cs) 2 ↔
        Unseparated isBlankLine (splitLines cs) 0 1) ∧
      (placeOf? (paragraphs cs) 2 = placeOf? (paragraphs cs) 3 ↔
        Unseparated isBlankLine (splitLines cs) 1 3) ∧
      paragraphs (List.intercalate ['\n', '\t', '\n'] (paragraphs cs)) = paragraphs cs := by
  intro cs
  have hfirst : placeOf? (splitLines cs) 1 = some 0 := by decide +kernel
  have hsecond : placeOf? (splitLines cs) 2 = some 1 := by decide +kernel
  have hthird : placeOf? (splitLines cs) 3 = some 3 := by decide +kernel
  have hmem : "one two three".toList ∈ paragraphs cs := by decide +kernel
  obtain ⟨-, -, ⟨-, -, hplaces⟩, -, hgaps⟩ := paragraphs_hold_words cs
  exact ⟨⟨by decide, hfirst, hsecond, hthird, by decide⟩, hmem,
    hplaces 1 2 0 1 (by decide) hfirst hsecond, hplaces 2 3 1 3 (by decide) hsecond hthird,
    hgaps ['\t'] (by decide)⟩

end Interchange.Text
