import Interchange.Proofs.Terminal.Tokens

/-!
# Texts behind a blank

Lines are joined by blanks before their sequences are read. What follows a line whose last sequence
has ended reads as it does by itself. A sequence that has not ended goes on behind the blank: the
blank is gone, and so is all that follows it up to the end of the sequence.
-/
namespace Interchange.Terminal

/-- Where a reader is behind some characters. -/
inductive Mode where
  | text
  | escape
  | control
  | command
  /-- Behind an escape character in a command. -/
  | commandEscape
deriving DecidableEq

namespace Mode

def step : Mode → Char → Mode
  | .text, c => if c = escapeChar then .escape else .text
  | .escape, c =>
    if c = '[' then .control
    else if c = ']' then .command
    else if c = escapeChar then .escape else .text
  | .control, c => if isLetter c then .text else .control
  | .command, c =>
    if c = bellChar then .text else if c = escapeChar then .commandEscape else .command
  | .commandEscape, c =>
    if c = '\\' ∨ c = bellChar then .text
    else if c = escapeChar then .commandEscape else .command

/-- Behind a text that is read from this mode on. -/
def after (mode : Mode) (cs : List Char) : Mode := cs.foldl step mode

/-- In a sequence of which more is to come. An escape character by itself is a sequence. -/
def isOpen : Mode → Bool
  | .text | .escape => false
  | .control | .command | .commandEscape => true

/-- What is left of a text once the sequence that has begun before it is at its end. -/
def resume : Mode → List Char → List Char
  | .text, cs | .escape, cs => cs
  | .control, cs => (cs.dropWhile (!isLetter ·)).tail
  | .command, cs | .commandEscape, cs => afterCommand cs

@[simp] lemma after_nil (mode : Mode) : mode.after [] = mode := rfl

@[simp] lemma after_cons (mode : Mode) (c : Char) (cs : List Char) :
    mode.after (c :: cs) = (mode.step c).after cs := rfl

lemma after_append (mode : Mode) (cs ds : List Char) :
    mode.after (cs ++ ds) = (mode.after cs).after ds := List.foldl_append

lemma step_blank {mode : Mode} (h : mode.isOpen = false) : mode.step ' ' = .text := by
  cases mode <;> first | rfl | cases h

lemma resume_of_closed {mode : Mode} (h : mode.isOpen = false) (cs : List Char) :
    mode.resume cs = cs := by
  cases mode <;> first | rfl | cases h

end Mode

/-- Whether the last sequence of a text has not ended. -/
def endsOpen (cs : List Char) : Bool := (Mode.text.after cs).isOpen

lemma afterCommand_suffix (cs : List Char) : afterCommand cs <:+ cs := by
  fun_induction afterCommand cs with
  | case1 => exact List.suffix_refl _
  | case2 cs => exact List.suffix_cons _ cs
  | case3 c _ d rest _ => exact (List.suffix_cons d rest).trans (List.suffix_cons c _)
  | case4 c _ d rest _ ih => exact ih.trans (List.suffix_cons c _)
  | case5 => exact List.nil_suffix

/-- The blank goes with the sequence, and so does what follows up to its end. -/
lemma Mode.resume_blank_suffix {mode : Mode} (h : mode.isOpen = true) (cs : List Char) :
    mode.resume (' ' :: cs) <:+ cs := by
  have hcommand : afterCommand (' ' :: cs) <:+ cs := by
    cases cs with
    | nil => exact List.suffix_refl _
    | cons d rest =>
      have hskip : afterCommand (' ' :: d :: rest) = afterCommand (d :: rest) := by
        rw [afterCommand, if_neg (by decide)]
        simp [escapeChar]
      rw [hskip]
      exact afterCommand_suffix _
  cases mode with
  | text | escape => cases h
  | command | commandEscape => exact hcommand
  | control =>
    have hblank : (' ' :: cs).dropWhile (!isLetter ·) = cs.dropWhile (!isLetter ·) := rfl
    rw [Mode.resume, hblank]
    exact (List.tail_suffix _).trans (List.dropWhile_suffix _)

lemma Mode.control_after {params : List Char} (h : ∀ c ∈ params, isLetter c = false) :
    Mode.control.after params = .control := by
  induction params with
  | nil => rfl
  | cons c params ih =>
    obtain ⟨hc, hparams⟩ := List.forall_mem_cons.1 h
    rw [Mode.after_cons, Mode.step, hc]
    exact ih hparams

lemma exists_params {body rest : List Char} {letter : Char}
    (h : body.dropWhile (!isLetter ·) = letter :: rest) :
    ∃ params, body = params ++ letter :: rest ∧ (∀ c ∈ params, isLetter c = false) ∧
      isLetter letter = true := by
  refine ⟨body.takeWhile (!isLetter ·), ?_, ?_, ?_⟩
  · rw [← h, List.takeWhile_append_dropWhile]
  · intro c hc
    simpa using List.mem_takeWhile_imp hc
  · have hhead := List.head?_dropWhile_not (!isLetter ·) body
    rw [h] at hhead
    simpa using hhead

/-- A control sequence lasts up to its first letter. -/
lemma Mode.after_control_append {params : List Char} (h : ∀ c ∈ params, isLetter c = false)
    {letter : Char} (hletter : isLetter letter = true) (cs : List Char) :
    Mode.text.after (escapeChar :: '[' :: (params ++ letter :: cs)) = Mode.text.after cs := by
  change Mode.control.after (params ++ letter :: cs) = _
  rw [Mode.after_append, Mode.control_after h, Mode.after_cons, Mode.step, if_pos hletter]

lemma Mode.after_escape_cons {c : Char} (h : c ≠ '[' ∧ c ≠ ']') (cs : List Char) :
    Mode.text.after (escapeChar :: c :: cs) = Mode.text.after (c :: cs) := by
  simp [Mode.step, h]

/-- A command either ends within a text or lasts to its end. -/
lemma command_cases (cs : List Char) :
    (Mode.command.after cs = Mode.text.after (afterCommand cs) ∧
      ∀ ds, afterCommand (cs ++ ds) = afterCommand cs ++ ds) ∨
    ((Mode.command.after cs = .command ∨ Mode.command.after cs = .commandEscape) ∧
      afterCommand cs = [] ∧
      ∀ ds, afterCommand (cs ++ ' ' :: ds) = afterCommand (' ' :: ds)) := by
  fun_induction afterCommand cs with
  | case1 => exact .inr ⟨.inl rfl, rfl, fun _ => rfl⟩
  | case2 cs =>
    refine .inl ⟨rfl, fun ds => ?_⟩
    rw [List.cons_append, afterCommand.eq_def]
    simp
  | case3 c hbell d rest hend =>
    obtain ⟨rfl, rfl⟩ := hend
    refine .inl ⟨rfl, fun ds => ?_⟩
    rw [List.cons_append, List.cons_append, afterCommand, if_neg hbell]
    simp
  | case4 c hbell d rest hend ih =>
    have hskip (ds : List Char) :
        afterCommand (c :: d :: rest ++ ds) = afterCommand (d :: rest ++ ds) := by
      rw [List.cons_append, List.cons_append, afterCommand, if_neg hbell]
      simp [hend]
    have hmode : Mode.command.after (c :: d :: rest) = Mode.command.after (d :: rest) := by
      simp only [Mode.after_cons]
      congr 1
      by_cases hc : c = escapeChar
      · have hd : d ≠ '\\' := fun hd => hend ⟨hc, hd⟩
        have hne : escapeChar ≠ bellChar := by decide
        simp [Mode.step, hc, hd, hne]
      · simp [Mode.step, hc, hbell]
    rw [hmode]
    refine ih.imp (And.imp id fun h ds => ?_) (And.imp id (And.imp id fun h ds => ?_))
    · rw [hskip, h]
    · rw [hskip, h]
  | case5 c hbell =>
    have hskip (ds : List Char) : afterCommand ([c] ++ ' ' :: ds) = afterCommand (' ' :: ds) := by
      rw [List.singleton_append, afterCommand, if_neg hbell]
      simp
    have hmode : Mode.command.after [c] = .command ∨ Mode.command.after [c] = .commandEscape := by
      rw [Mode.after_cons, Mode.after_nil, Mode.step, if_neg hbell]
      split
      · exact .inr rfl
      · exact .inl rfl
    exact .inr ⟨hmode, rfl, hskip⟩

/-- A control sequence without a letter goes on behind the blank, where it may end. -/
lemma exists_tokens_control {body : List Char} (hbody : ∀ c ∈ body, isLetter c = false)
    (ds : List Char) : ∃ late, visible late = [] ∧
      tokens (escapeChar :: '[' :: (body ++ ' ' :: ds)) =
        late ++ tokens (Mode.control.resume (' ' :: ds)) := by
  have hlonger {more : List Char} (hmore : ∀ c ∈ more, isLetter c = false) :
      ∀ c ∈ body ++ more, isLetter c = false := List.forall_mem_append.2 ⟨hbody, hmore⟩
  rw [Mode.resume]
  cases hrest : (' ' :: ds).dropWhile (!isLetter ·) with
  | nil =>
    have hnone : ∀ c ∈ ' ' :: ds, isLetter c = false := by
      simpa using List.dropWhile_eq_nil_iff.1 hrest
    rw [tokens_control_of_forall (hlonger hnone)]
    exact ⟨[], rfl, by simp⟩
  | cons letter rest =>
    obtain ⟨params, hds, hparams, hletter⟩ := exists_params hrest
    rw [hds, ← List.append_assoc, tokens_control_append (hlonger hparams) hletter]
    refine ⟨[_], ?_, rfl⟩
    split <;> rfl

/-- A text and a blank behind it read as the text does, then the rest of a sequence that the text
has not ended, then what follows that. The induction is on the sequences of the text. -/
theorem exists_tokens_append_blank (cs ds : List Char) : ∃ late, visible late = [] ∧
    (endsOpen cs = false → late = []) ∧
    tokens (cs ++ ' ' :: ds) =
      tokens cs ++ (late ++ tokens ((Mode.text.after cs).resume (' ' :: ds))) := by
  unfold endsOpen
  induction cs using tokens.induct with
  | case1 => exact ⟨[], rfl, fun _ => rfl, by simp [Mode.resume]⟩
  | case2 c cs hc ih =>
    obtain ⟨late, hlate, hclosed, htokens⟩ := ih
    have hmode : Mode.text.after (c :: cs) = Mode.text.after cs := by
      rw [Mode.after_cons, Mode.step, if_neg hc]
    rw [hmode, List.cons_append, tokens_char_cons hc, tokens_char_cons hc, htokens]
    exact ⟨late, hlate, hclosed, rfl⟩
  | case3 c hc body hbody =>
    -- a control sequence that has not ended
    obtain rfl := not_not.1 hc
    have hbare : ∀ c ∈ body, isLetter c = false := by
      simpa using List.dropWhile_eq_nil_iff.1 hbody
    have hmode : Mode.text.after (escapeChar :: '[' :: body) = .control := Mode.control_after hbare
    obtain ⟨late, hlate, htokens⟩ := exists_tokens_control hbare ds
    rw [hmode, tokens_control_of_forall hbare]
    exact ⟨late, hlate, fun hclosed => (nomatch hclosed), htokens⟩
  | case4 c hc body letter rest hbody ih =>
    -- a control sequence up to its letter
    obtain rfl := not_not.1 hc
    obtain ⟨late, hlate, hclosed, htokens⟩ := ih
    obtain ⟨params, rfl, hparams, hletter⟩ := exists_params hbody
    rw [Mode.after_control_append hparams hletter, List.cons_append, List.cons_append,
      List.append_assoc, List.cons_append, tokens_control_append hparams hletter,
      tokens_control_append hparams hletter, htokens]
    exact ⟨late, hlate, hclosed, rfl⟩
  | case5 c hc body ih =>
    -- a command, which the text may leave open
    obtain rfl := not_not.1 hc
    obtain ⟨late, hlate, hclosed, htokens⟩ := ih
    have hmode : Mode.text.after (escapeChar :: ']' :: body) = Mode.command.after body := rfl
    rw [hmode, List.cons_append, List.cons_append, tokens_command_cons, tokens_command_cons]
    obtain ⟨hafter, hlonger⟩ | ⟨hopen, hnil, hlonger⟩ := command_cases body
    · rw [hafter, hlonger, htokens]
      exact ⟨late, hlate, hclosed, rfl⟩
    · have hresume : (Mode.command.after body).resume (' ' :: ds) = afterCommand (' ' :: ds) := by
        rcases hopen with hopen | hopen <;> rw [hopen, Mode.resume]
      rw [hresume, hnil, hlonger, tokens_nil]
      exact ⟨[], rfl, fun _ => rfl, rfl⟩
  | case6 c hc cs hcontrol hcommand ih =>
    -- an escape character by itself; a blank behind it begins no other sequence
    obtain rfl := not_not.1 hc
    obtain ⟨late, hlate, hclosed, htokens⟩ := ih
    have hhead : ∀ d ∈ cs.head?, d ≠ '[' ∧ d ≠ ']' := by
      intro d hd
      obtain ⟨rest, rfl⟩ := List.head?_eq_some_iff.1 hd
      constructor
      · rintro rfl
        exact hcontrol rest rfl
      · rintro rfl
        exact hcommand rest rfl
    rw [tokens_escape_cons hhead]
    cases cs with
    | nil =>
      refine ⟨[], rfl, fun _ => rfl, ?_⟩
      rw [List.singleton_append, tokens_escape_cons (by simp)]
      simp [Mode.step, Mode.resume]
    | cons d cs =>
      have hlonger : ∀ c ∈ (d :: cs ++ ' ' :: ds).head?, c ≠ '[' ∧ c ≠ ']' := hhead
      rw [Mode.after_escape_cons (hhead d rfl), List.cons_append, tokens_escape_cons hlonger,
        htokens]
      exact ⟨late, hlate, hclosed, rfl⟩

/-- What follows the blank behind such a text reads as it does by itself. -/
theorem tokens_append_blank {cs : List Char} (h : endsOpen cs = false) (ds : List Char) :
    tokens (cs ++ ' ' :: ds) = tokens cs ++ .char ' ' :: tokens ds := by
  obtain ⟨late, -, hclosed, htokens⟩ := exists_tokens_append_blank cs ds
  rw [htokens, hclosed h, Mode.resume_of_closed h, tokens_char_cons (by decide)]
  rfl

lemma stripEscapes_append_blank {cs : List Char} (h : endsOpen cs = false) (ds : List Char) :
    stripEscapes (cs ++ ' ' :: ds) = stripEscapes cs ++ ' ' :: stripEscapes ds := by
  rw [stripEscapes, tokens_append_blank h, visible, List.filterMap_append]
  rfl

lemma endsOpen_append_blank {cs : List Char} (h : endsOpen cs = false) (ds : List Char) :
    endsOpen (cs ++ ' ' :: ds) = endsOpen ds := by
  rw [endsOpen, Mode.after_append, Mode.after_cons, Mode.step_blank h]
  rfl

namespace Scanner

lemma after_append_blank (scanner : Scanner) {cs : List Char} (h : endsOpen cs = false)
    (ds : List Char) : scanner.after (cs ++ ' ' :: ds) = (scanner.after cs).after ds := by
  simp only [after, tokens_append_blank h, styleAfter_append, ignoredIn_append, droppedIn,
    List.countP_append]
  simp [styleAfter, ignoredIn, Nat.add_assoc]

/-- The blank has the style in which the text before it ends. -/
theorem shown_append_blank (scanner : Scanner) {cs : List Char} (h : endsOpen cs = false)
    (ds : List Char) :
    (scanner.runs (cs ++ ' ' :: ds)).flatMap Run.shown =
      (scanner.runs cs).flatMap Run.shown ++ [(' ', (scanner.after cs).style)] ++
        ((scanner.after cs).runs ds).flatMap Run.shown := by
  simp only [runs, shown_runsFrom, tokens_append_blank h, shownIn_append]
  simp [shownIn, after]

end Scanner

/-- The blank behind such a text is lost, and with it the front of what follows. -/
theorem exists_stripEscapes_append_blank {cs : List Char} (h : endsOpen cs = true)
    (ds : List Char) : ∃ rest, rest <:+ ds ∧
      stripEscapes (cs ++ ' ' :: ds) = stripEscapes cs ++ stripEscapes rest := by
  obtain ⟨late, hlate, -, htokens⟩ := exists_tokens_append_blank cs ds
  refine ⟨_, Mode.resume_blank_suffix h ds, ?_⟩
  have hlost : late.filterMap _ = [] := hlate
  rw [stripEscapes, htokens, visible, List.filterMap_append, List.filterMap_append, hlost]
  rfl

/-- What follows without sequences of its own gets shorter. -/
lemma length_stripEscapes_append_blank_lt {cs ds : List Char} (h : endsOpen cs = true)
    (hds : escapeChar ∉ ds) :
    (stripEscapes (cs ++ ' ' :: ds)).length < (stripEscapes cs ++ ' ' :: ds).length := by
  obtain ⟨rest, hrest, hlost⟩ := exists_stripEscapes_append_blank h ds
  have hbare : escapeChar ∉ rest := fun hmem => hds (hrest.subset hmem)
  have hle := hrest.length_le
  rw [hlost, stripEscapes_of_notMem hbare, List.length_append, List.length_append, List.length_cons]
  omega

/-- A text is read as it stands before every other just if its last sequence has ended. -/
theorem stripEscapes_append_blank_iff (cs : List Char) :
    (∀ ds, stripEscapes (cs ++ ' ' :: ds) = stripEscapes cs ++ ' ' :: stripEscapes ds) ↔
      endsOpen cs = false := by
  refine ⟨fun hkept => ?_, stripEscapes_append_blank⟩
  by_contra hopen
  obtain ⟨rest, hrest, hlost⟩ := exists_stripEscapes_append_blank (by simpa using hopen) []
  rw [hkept, List.suffix_nil.1 hrest] at hlost
  simp at hlost

end Interchange.Terminal
