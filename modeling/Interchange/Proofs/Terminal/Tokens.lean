import Interchange.Terminal.Scanner
import Mathlib.Data.List.TakeWhile
import Mathlib.Tactic

/-!
# Texts whose sequences are whole

Two texts one after the other fall into the tokens of the first and those of the second, provided
that no sequence is broken off at the end of the first. What a run of tokens does to a scanner, and
the characters that it shows, each in its style, are told token by token.
-/
namespace Interchange.Terminal

@[simp] lemma tokens_nil : tokens [] = [] := by
  rw [tokens]

lemma tokens_char_cons {c : Char} (hc : c ≠ escapeChar) (cs : List Char) :
    tokens (c :: cs) = .char c :: tokens cs := by
  rw [tokens.eq_def]
  simp [hc]

/-- A control sequence that the text breaks off is nothing. -/
lemma tokens_control_of_forall {body : List Char} (h : ∀ c ∈ body, isLetter c = false) :
    tokens (escapeChar :: '[' :: body) = [] := by
  have hnone : body.dropWhile (!isLetter ·) = [] := by
    rw [List.dropWhile_eq_nil_iff]
    simpa using h
  rw [tokens.eq_def]
  dsimp only
  rw [if_neg (by simp)]
  simp only
  split
  · rfl
  · next hcons =>
    rw [hnone] at hcons
    cases hcons

/-- A control sequence ends at the first letter in it. -/
lemma tokens_control_append {params : List Char} (h : ∀ c ∈ params, isLetter c = false)
    {letter : Char} (hletter : isLetter letter = true) (cs : List Char) :
    tokens (escapeChar :: '[' :: (params ++ letter :: cs)) =
      (if letter = 'm' then .sgr params else .dropped) :: tokens cs := by
  have hrest : (params ++ letter :: cs).dropWhile (!isLetter ·) = letter :: cs := by
    rw [List.dropWhile_append_of_pos (by simpa using h)]
    simp [hletter]
  have hparams : (params ++ letter :: cs).takeWhile (!isLetter ·) = params := by
    rw [List.takeWhile_append_of_pos (by simpa using h)]
    simp [hletter]
  rw [tokens.eq_def]
  dsimp only
  rw [if_neg (by simp)]
  simp only
  split
  · next hnil =>
    rw [hrest] at hnil
    cases hnil
  · next hcons =>
    rw [hrest] at hcons
    obtain ⟨rfl, rfl⟩ := List.cons.inj hcons
    rw [hparams]

lemma tokens_command_cons (body : List Char) :
    tokens (escapeChar :: ']' :: body) = .dropped :: tokens (afterCommand body) := by
  rw [tokens.eq_def]
  simp

/-- An escape character that begins no other sequence is one by itself. -/
lemma tokens_escape_cons {cs : List Char} (h : ∀ c ∈ cs.head?, c ≠ '[' ∧ c ≠ ']') :
    tokens (escapeChar :: cs) = .dropped :: tokens cs := by
  rw [tokens.eq_def]
  dsimp only
  rw [if_neg (by simp)]
  split
  · exact absurd rfl (h '[' rfl).1
  · exact absurd rfl (h ']' rfl).2
  · rfl

/-- A style sequence with the given parameters. -/
def spell (params : List Char) : List Char := escapeChar :: '[' :: params ++ ['m']

lemma tokens_spell_append {params : List Char} (h : ∀ c ∈ params, isLetter c = false)
    (cs : List Char) : tokens (spell params ++ cs) = .sgr params :: tokens cs := by
  have hspell : spell params ++ cs = escapeChar :: '[' :: (params ++ 'm' :: cs) := by
    simp [spell]
  rw [hspell, tokens_control_append h (by decide), if_pos rfl]

lemma isLetter_onCode (flag : StyleFlag) : ∀ c ∈ (onCode flag).toList, isLetter c = false := by
  have hall : (onCode flag).toList.all (!isLetter ·) = true := by cases flag <;> decide
  simpa using hall

lemma isLetter_offCode (flag : StyleFlag) : ∀ c ∈ (offCode flag).toList, isLetter c = false := by
  have hall : (offCode flag).toList.all (!isLetter ·) = true := by cases flag <;> decide
  simpa using hall

/-- A text at whose end no sequence is broken off. -/
def Whole (cs : List Char) : Prop := ∀ rest, tokens (cs ++ rest) = tokens cs ++ tokens rest

namespace Whole

lemma nil : Whole [] := fun _ => by simp

lemma append {cs ds : List Char} (hcs : Whole cs) (hds : Whole ds) : Whole (cs ++ ds) := by
  intro rest
  rw [List.append_assoc, hcs, hds, hcs, List.append_assoc]

lemma cons {c : Char} (hc : c ≠ escapeChar) {cs : List Char} (hcs : Whole cs) :
    Whole (c :: cs) := by
  intro rest
  rw [List.cons_append, tokens_char_cons hc, tokens_char_cons hc, hcs rest]
  rfl

lemma spell {params : List Char} (h : ∀ c ∈ params, isLetter c = false) :
    Whole (spell params) := by
  intro rest
  have hnil := tokens_spell_append h []
  rw [List.append_nil] at hnil
  rw [tokens_spell_append h, hnil, tokens_nil]
  rfl

end Whole

lemma tokens_of_notMem {cs : List Char} (h : escapeChar ∉ cs) : tokens cs = cs.map .char := by
  induction cs with
  | nil => simp
  | cons c cs ih =>
    simp only [List.mem_cons, not_or] at h
    rw [tokens_char_cons (Ne.symm h.1), ih h.2, List.map_cons]

lemma stripEscapes_append {cs : List Char} (h : Whole cs) (ds : List Char) :
    stripEscapes (cs ++ ds) = stripEscapes cs ++ stripEscapes ds := by
  rw [stripEscapes, h, visible, List.filterMap_append]
  rfl

lemma stripEscapes_of_notMem {cs : List Char} (h : escapeChar ∉ cs) : stripEscapes cs = cs := by
  rw [stripEscapes, tokens_of_notMem h, visible, List.filterMap_map]
  exact List.filterMap_some

@[simp] lemma stripEscapes_nil : stripEscapes [] = [] := by
  simp [stripEscapes, visible]

lemma stripEscapes_spell {params : List Char} (h : ∀ c ∈ params, isLetter c = false) :
    stripEscapes (spell params) = [] := by
  have htokens := tokens_spell_append h []
  rw [List.append_nil, tokens_nil] at htokens
  rw [stripEscapes, htokens]
  rfl

/-- The visible characters of tokens, each in the style in force. -/
def shownIn (style : TextStyle) : List Token → List (Char × TextStyle)
  | [] => []
  | .char c :: tokens => (c, style) :: shownIn style tokens
  | .sgr params :: tokens => shownIn (applySgr style params) tokens
  | .dropped :: tokens => shownIn style tokens

def Run.shown (run : Run) : List (Char × TextStyle) := run.text.map (·, run.style)

/-- Runs show what the tokens show that they come from. -/
theorem shown_runsFrom (style : TextStyle) (reversed : List Char) (tokens : List Token) :
    (runsFrom style reversed tokens).flatMap Run.shown =
      reversed.reverse.map (·, style) ++ shownIn style tokens := by
  have closed (style : TextStyle) (reversed : List Char) :
      (closeRun style reversed).flatMap Run.shown = reversed.reverse.map (·, style) := by
    by_cases h : reversed = [] <;> simp [closeRun, Run.shown, h]
  induction tokens generalizing style reversed with
  | nil => rw [runsFrom, closed, shownIn, List.append_nil]
  | cons token tokens ih =>
    cases token with
    | char c => simp [runsFrom, shownIn, ih]
    | dropped => simp [runsFrom, shownIn, ih]
    | sgr params =>
      by_cases h : applySgr style params = style
      · simp [runsFrom, shownIn, h, ih]
      · simp [runsFrom, shownIn, h, ih, closed]

/-- The visible characters are those that are shown in whatever style. -/
lemma visible_eq_map_shownIn (style : TextStyle) (tokens : List Token) :
    visible tokens = (shownIn style tokens).map Prod.fst := by
  induction tokens generalizing style with
  | nil => rfl
  | cons token tokens ih =>
    cases token with
    | char c => simpa [visible, shownIn] using ih style
    | dropped => simpa [visible, shownIn] using ih style
    | sgr params => simpa [visible, shownIn] using ih (applySgr style params)

lemma shownIn_append (style : TextStyle) (front back : List Token) :
    shownIn style (front ++ back) =
      shownIn style front ++ shownIn (styleAfter style front) back := by
  induction front generalizing style with
  | nil => rfl
  | cons token front ih => cases token <;> simp [shownIn, styleAfter, ih]

lemma styleAfter_append (style : TextStyle) (front back : List Token) :
    styleAfter style (front ++ back) = styleAfter (styleAfter style front) back := by
  induction front generalizing style with
  | nil => rfl
  | cons token front ih => cases token <;> simp [styleAfter, ih]

lemma ignoredIn_append (known : List String) (front back : List Token) :
    ignoredIn known (front ++ back) = ignoredIn (ignoredIn known front) back := by
  induction front generalizing known with
  | nil => rfl
  | cons token front ih => cases token <;> simp [ignoredIn, ih]

namespace Scanner

@[simp] lemma after_nil (scanner : Scanner) : scanner.after [] = scanner := by
  simp [after, styleAfter, ignoredIn, droppedIn]

/-- A visible character leaves a scanner as it is. -/
lemma after_char (scanner : Scanner) {c : Char} (hc : c ≠ escapeChar) :
    scanner.after [c] = scanner := by
  have htokens : tokens [c] = [.char c] := by rw [tokens_char_cons hc, tokens_nil]
  simp [after, htokens, styleAfter, ignoredIn, droppedIn]

/-- A scanner reads a whole text and then what follows it. -/
theorem after_append (scanner : Scanner) {cs : List Char} (h : Whole cs) (ds : List Char) :
    scanner.after (cs ++ ds) = (scanner.after cs).after ds := by
  simp only [after, h ds, styleAfter_append, ignoredIn_append, droppedIn, List.countP_append]
  rw [Nat.add_assoc]

end Scanner

end Interchange.Terminal
