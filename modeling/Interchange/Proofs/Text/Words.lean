import Interchange.Text.Lines
import Mathlib.Tactic

/-!
# Words and collapsed text

The words of a text are its longest runs without blanks. Words joined by single spaces are the
words of what results, so collapsing a text again changes nothing, and the only blanks of a
collapsed text are spaces.
-/
namespace Interchange.Text

lemma words_blank_cons {c : Char} (hc : isBlank c = true) (cs : List Char) :
    words (c :: cs) = words cs := by
  rw [words.eq_def]
  simp [hc]

/-- A character before a blank, or at the end, is a word. -/
lemma words_letter_cons {c : Char} (hc : isBlank c = false) {cs : List Char}
    (hcs : ∀ d ∈ cs.head?, isBlank d = true) : words (c :: cs) = [c] :: words cs := by
  cases cs with
  | nil =>
    rw [words.eq_def]
    simp [hc]
  | cons d cs =>
    have hd : isBlank d = true := hcs d rfl
    rw [words.eq_def]
    cases h : words (d :: cs) <;> simp [hc, hd, h]

lemma words_ne_nil_of_head {c : Char} (hc : isBlank c = false) (cs : List Char) :
    words (c :: cs) ≠ [] := by
  rw [words.eq_def]
  simp only [hc, Bool.false_eq_true, if_false]
  split
  · split <;> simp
  · simp

/-- A character before one that is not blank begins its word. -/
lemma words_letter_letter {c d : Char} (hc : isBlank c = false) (hd : isBlank d = false)
    (cs : List Char) : words (c :: d :: cs) = (words (d :: cs)).modifyHead (c :: ·) := by
  rw [words.eq_def]
  cases h : words (d :: cs) with
  | nil => exact absurd h (words_ne_nil_of_head hd cs)
  | cons w ws => simp [hc, hd, h]

def IsWord (w : List Char) : Prop := w ≠ [] ∧ ∀ c ∈ w, isBlank c = false

theorem isWord_of_mem_words {w cs : List Char} (h : w ∈ words cs) : IsWord w := by
  induction cs generalizing w with
  | nil => simp at h
  | cons c cs ih =>
    cases hc : isBlank c with
    | true =>
      rw [words_blank_cons hc] at h
      exact ih h
    | false =>
      have alone : IsWord [c] := ⟨by simp, by simpa using hc⟩
      by_cases hcs : ∀ d ∈ cs.head?, isBlank d = true
      · rw [words_letter_cons hc hcs] at h
        rcases List.mem_cons.1 h with rfl | h
        · exact alone
        · exact ih h
      · obtain ⟨d, rest, rfl, hd⟩ : ∃ d rest, cs = d :: rest ∧ isBlank d = false := by
          cases cs with
          | nil => simp at hcs
          | cons d rest => exact ⟨d, rest, rfl, by simpa using hcs⟩
        rw [words_letter_letter hc hd] at h
        cases hwords : words (d :: rest) with
        | nil => exact absurd hwords (words_ne_nil_of_head hd rest)
        | cons v vs =>
          rw [hwords] at h ih
          rcases List.mem_cons.1 h with rfl | h
          · have hv : IsWord v := ih List.mem_cons_self
            exact ⟨by simp, by simpa using ⟨hc, hv.2⟩⟩
          · exact ih (List.mem_cons_of_mem v h)

/-- A word that is followed by a blank, or by nothing, comes out as it is. -/
theorem words_append {w : List Char} (hw : IsWord w) {rest : List Char}
    (hrest : ∀ d ∈ rest.head?, isBlank d = true) : words (w ++ rest) = w :: words rest := by
  obtain ⟨hne, hletters⟩ := hw
  induction w with
  | nil => exact absurd rfl hne
  | cons c w ih =>
    have hc : isBlank c = false := hletters c List.mem_cons_self
    cases w with
    | nil => exact words_letter_cons hc hrest
    | cons d w =>
      have hd : isBlank d = false := hletters d (by simp)
      have hrec := ih (by simp) fun x hx => hletters x (List.mem_cons_of_mem c hx)
      rw [List.cons_append, List.cons_append, words_letter_letter hc hd, ← List.cons_append, hrec]
      rfl

/-- A character in front changes the first word only. -/
lemma words_cons_append {c : Char} {cs front : List Char} {rest : List (List Char)}
    (hwords : words cs = words front ++ rest)
    (hhead : (∀ d ∈ cs.head?, isBlank d = true) ↔ ∀ d ∈ front.head?, isBlank d = true) :
    words (c :: cs) = words (c :: front) ++ rest := by
  cases hc : isBlank c with
  | true => rw [words_blank_cons hc, words_blank_cons hc, hwords]
  | false =>
    by_cases hblank : ∀ d ∈ front.head?, isBlank d = true
    · rw [words_letter_cons hc hblank, words_letter_cons hc (hhead.2 hblank), hwords,
        List.cons_append]
    · have hletter {text : List Char} (h : ¬∀ d ∈ text.head?, isBlank d = true) :
          ∃ d more, text = d :: more ∧ isBlank d = false := by
        cases text with
        | nil => simp at h
        | cons d more => exact ⟨d, more, rfl, by simpa using h⟩
      obtain ⟨d, more, rfl, hd⟩ := hletter hblank
      obtain ⟨e, others, rfl, he⟩ := hletter (mt hhead.1 hblank)
      rw [words_letter_letter hc hd, words_letter_letter hc he, hwords]
      cases hfirst : words (d :: more) with
      | nil => exact absurd hfirst (words_ne_nil_of_head hd more)
      | cons w ws => rfl

/-- A blank parts the words before it from those behind it. -/
lemma words_append_blank_cons {c : Char} (hc : isBlank c = true) (front back : List Char) :
    words (front ++ c :: back) = words front ++ words back := by
  induction front with
  | nil => rw [List.nil_append, words_blank_cons hc, words_nil, List.nil_append]
  | cons d front ih =>
    refine words_cons_append ih ?_
    cases front with
    | nil => simp [hc]
    | cons e front => simp

lemma words_intercalate_eq_flatMap (pieces : List (List Char)) :
    words (List.intercalate [' '] pieces) = pieces.flatMap words := by
  induction pieces with
  | nil => rfl
  | cons piece pieces ih =>
    cases pieces with
    | nil => simp
    | cons next pieces =>
      rw [List.intercalate_cons_cons, List.append_assoc, List.singleton_append,
        words_append_blank_cons (by decide), ih]
      rfl

theorem words_intercalate {ws : List (List Char)} (h : ∀ w ∈ ws, IsWord w) :
    words (List.intercalate [' '] ws) = ws := by
  induction ws with
  | nil => rfl
  | cons w ws ih =>
    obtain ⟨hw, hws⟩ := List.forall_mem_cons.1 h
    cases ws with
    | nil =>
      have hword : words (w ++ []) = w :: words [] := words_append hw (by simp)
      simpa using hword
    | cons v vs =>
      have hspace : ∀ d ∈ (' ' :: List.intercalate [' '] (v :: vs)).head?, isBlank d = true := by
        intro d hd
        obtain rfl : ' ' = d := by simpa using hd
        decide
      rw [List.intercalate_cons_cons, List.append_assoc, List.singleton_append,
        words_append hw hspace, words_blank_cons (by decide), ih hws]

lemma words_eq_nil_iff {cs : List Char} : words cs = [] ↔ isBlankLine cs = true := by
  induction cs with
  | nil => simp [isBlankLine]
  | cons c cs ih =>
    cases hc : isBlank c with
    | true =>
      rw [words_blank_cons hc, ih, isBlankLine, isBlankLine, List.all_cons, hc, Bool.true_and]
    | false => simp [words_ne_nil_of_head hc, isBlankLine, hc]

@[simp] theorem collapse_collapse (cs : List Char) : collapse (collapse cs) = collapse cs := by
  rw [collapse, collapse, words_intercalate fun w hw => isWord_of_mem_words hw]

lemma intercalate_eq_nil_iff {separator : List Char} (hsep : separator ≠ [])
    {pieces : List (List Char)} :
    List.intercalate separator pieces = [] ↔ pieces = [] ∨ pieces = [[]] := by
  cases pieces with
  | nil => simp
  | cons piece pieces =>
    cases pieces with
    | nil => simp
    | cons next pieces => simp [hsep]

lemma collapse_eq_nil_iff {cs : List Char} : collapse cs = [] ↔ isBlankLine cs = true := by
  rw [collapse, intercalate_eq_nil_iff (by simp), ← words_eq_nil_iff, or_iff_left_iff_imp]
  intro h
  have hmem : [] ∈ words cs := by simp [h]
  exact absurd rfl (isWord_of_mem_words hmem).1

lemma intercalate_append {separator : List Char} {front back : List (List Char)}
    (hfront : front ≠ []) (hback : back ≠ []) :
    List.intercalate separator (front ++ back) =
      List.intercalate separator front ++ separator ++ List.intercalate separator back := by
  induction front with
  | nil => exact absurd rfl hfront
  | cons piece front ih =>
    cases front with
    | nil =>
      obtain ⟨next, pieces, rfl⟩ := List.exists_cons_of_ne_nil hback
      simp
    | cons next front =>
      rw [List.cons_append, List.cons_append, List.intercalate_cons_cons, ← List.cons_append,
        ih (List.cons_ne_nil _ _), List.intercalate_cons_cons]
      simp only [List.append_assoc]

/-- Texts that are joined one by one are joined all at once. -/
lemma intercalate_map_intercalate {separator : List Char} {groups : List (List (List Char))}
    (h : ∀ group ∈ groups, group ≠ []) :
    List.intercalate separator (groups.map (List.intercalate separator)) =
      List.intercalate separator groups.flatten := by
  induction groups with
  | nil => rfl
  | cons group groups ih =>
    obtain ⟨hgroup, hgroups⟩ := List.forall_mem_cons.1 h
    cases groups with
    | nil => simp
    | cons next groups =>
      have hnext : (next :: groups).flatten ≠ [] := by
        simpa using fun hnil => absurd hnil (hgroups next List.mem_cons_self)
      rw [List.map_cons, List.map_cons, List.intercalate_cons_cons, ← List.map_cons, ih hgroups,
        ← intercalate_append hgroup hnext]
      rfl

lemma prefix_intercalate (separator piece : List Char) (pieces : List (List Char)) :
    piece <+: List.intercalate separator (piece :: pieces) := by
  cases pieces with
  | nil => rw [List.intercalate_singleton]
  | cons next pieces =>
    rw [List.intercalate_cons_cons, List.append_assoc]
    exact List.prefix_append _ _

/-- What takes texts in sequence one by one takes apart what is put between pieces, too. -/
lemma map_intercalate {α β : Type} {f : List α → List β} (hnil : f [] = [])
    (happend : ∀ front back, f (front ++ back) = f front ++ f back) (separator : List α)
    (pieces : List (List α)) :
    f (List.intercalate separator pieces) = List.intercalate (f separator) (pieces.map f) := by
  induction pieces with
  | nil => exact hnil
  | cons piece pieces ih =>
    cases pieces with
    | nil => rw [List.intercalate_singleton, List.map_singleton, List.intercalate_singleton]
    | cons next pieces =>
      rw [List.intercalate_cons_cons, happend, happend, ih]
      simp only [List.map_cons, List.intercalate_cons_cons]

lemma mem_intercalate {c : Char} {separator : List Char} {pieces : List (List Char)}
    (h : c ∈ List.intercalate separator pieces) :
    (∃ piece ∈ pieces, c ∈ piece) ∨ c ∈ separator := by
  induction pieces with
  | nil => simp at h
  | cons piece pieces ih =>
    cases pieces with
    | nil => exact .inl ⟨piece, List.mem_cons_self, by simpa using h⟩
    | cons next pieces =>
      rw [List.intercalate_cons_cons, List.append_assoc, List.mem_append, List.mem_append] at h
      rcases h with h | h | h
      · exact .inl ⟨piece, List.mem_cons_self, h⟩
      · exact .inr h
      · rcases ih h with ⟨found, hfound, hc⟩ | hsep
        · exact .inl ⟨found, List.mem_cons_of_mem piece hfound, hc⟩
        · exact .inr hsep

lemma mem_intercalate_of_mem {c : Char} {separator piece : List Char}
    {pieces : List (List Char)} (hpiece : piece ∈ pieces) (hc : c ∈ piece) :
    c ∈ List.intercalate separator pieces := by
  induction pieces with
  | nil => simp at hpiece
  | cons first pieces ih =>
    cases pieces with
    | nil =>
      obtain rfl : piece = first := by simpa using hpiece
      simpa using hc
    | cons next pieces =>
      rw [List.intercalate_cons_cons, List.mem_append]
      rcases List.mem_cons.1 hpiece with rfl | hpiece
      · exact .inl (List.mem_append_left separator hc)
      · exact .inr (ih hpiece)

/-- The only blanks of a collapsed text are the spaces between its words. -/
theorem eq_space_of_mem_collapse {c : Char} {cs : List Char} (hmem : c ∈ collapse cs)
    (hc : isBlank c = true) : c = ' ' := by
  rcases mem_intercalate hmem with ⟨w, hw, hcw⟩ | hspace
  · have hletter := (isWord_of_mem_words hw).2 c hcw
    rw [hc] at hletter
    cases hletter
  · simpa using hspace

/-- A collapsed text is on one line. -/
lemma isLineBreak_of_mem_collapse {c : Char} {cs : List Char} (hmem : c ∈ collapse cs) :
    isLineBreak c = false := by
  by_contra h
  have hbreak : isLineBreak c = true := by simpa using h
  obtain rfl := eq_space_of_mem_collapse hmem (isBlank_of_isLineBreak c hbreak)
  exact absurd hbreak (by decide)

end Interchange.Text
