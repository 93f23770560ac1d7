import Interchange.Proofs.Terminal.Joining

/-!
# Texts that are fed in chunks

A scanner may be fed a text in two chunks just if the first one ends outside of every sequence: then
the same characters are shown in the same styles as when both are fed at once, and the scanner is
left in the same state. Only where one run ends and the next begins may differ.
-/
namespace Interchange.Terminal

/-- Whether a text ends outside of every sequence: none has begun that is not at its end, and the
last character is no escape character. -/
def endsOutside (cs : List Char) : Bool := Mode.text.after cs = .text

/-- Some sequences of a text are read whatever follows it. What is left of the text is nothing if it
ends outside of every sequence, and a single escape character if it ends with one that has not begun
a sequence yet. The induction is on the sequences of the text. -/
theorem exists_tokens_append (cs : List Char) : ∃ read tail,
    (∀ rest, tokens (cs ++ rest) = read ++ tokens (tail ++ rest)) ∧
      (Mode.text.after cs = .text → tail = []) ∧
      (Mode.text.after cs = .escape → tail = [escapeChar]) := by
  induction cs using tokens.induct with
  | case1 => exact ⟨[], [], fun _ => rfl, fun _ => rfl, fun h => (by cases h)⟩
  | case2 c cs hc ih =>
    obtain ⟨read, tail, htokens, hends⟩ := ih
    have hmode : Mode.text.after (c :: cs) = Mode.text.after cs := by
      rw [Mode.after_cons, Mode.step, if_neg hc]
    rw [hmode]
    refine ⟨.char c :: read, tail, fun rest => ?_, hends⟩
    rw [List.cons_append, tokens_char_cons hc, htokens]
    rfl
  | case3 c hc body hbody =>
    -- a control sequence that has not ended
    obtain rfl := not_not.1 hc
    have hbare : ∀ c ∈ body, isLetter c = false := by
      simpa using List.dropWhile_eq_nil_iff.1 hbody
    have hmode : Mode.text.after (escapeChar :: '[' :: body) = .control := Mode.control_after hbare
    rw [hmode]
    exact ⟨[], _, fun _ => rfl, fun h => (by cases h), fun h => (by cases h)⟩
  | case4 c hc body letter rest hbody ih =>
    -- a control sequence up to its letter
    obtain rfl := not_not.1 hc
    obtain ⟨read, tail, htokens, hends⟩ := ih
    obtain ⟨params, rfl, hparams, hletter⟩ := exists_params hbody
    rw [Mode.after_control_append hparams hletter]
    refine ⟨(if letter = 'm' then .sgr params else .dropped) :: read, tail, fun more => ?_, hends⟩
    rw [List.cons_append, List.cons_append, List.append_assoc, List.cons_append,
      tokens_control_append hparams hletter, htokens]
    rfl
  | case5 c hc body ih =>
    -- a command, which the text may leave open
    obtain rfl := not_not.1 hc
    obtain ⟨read, tail, htokens, hends⟩ := ih
    have hmode : Mode.text.after (escapeChar :: ']' :: body) = Mode.command.after body := rfl
    rw [hmode]
    obtain ⟨hafter, hlonger⟩ | ⟨hopen, -, -⟩ := command_cases body
    · rw [hafter]
      refine ⟨.dropped :: read, tail, fun rest => ?_, hends⟩
      rw [List.cons_append, List.cons_append, tokens_command_cons, hlonger, htokens]
      rfl
    · refine ⟨[], _, fun _ => rfl, fun htext => ?_, fun hescape => ?_⟩
      · rcases hopen with hopen | hopen <;> rw [hopen] at htext <;> cases htext
      · rcases hopen with hopen | hopen <;> rw [hopen] at hescape <;> cases hescape
  | case6 c hc cs hcontrol hcommand ih =>
    -- an escape character, which is a sequence by itself as soon as another character follows
    obtain rfl := not_not.1 hc
    obtain ⟨read, tail, htokens, hends⟩ := ih
    cases cs with
    | nil => exact ⟨[], [escapeChar], fun _ => rfl, fun h => (by cases h), fun _ => rfl⟩
    | cons d cs =>
      have hd : d ≠ '[' ∧ d ≠ ']' := by
        constructor
        · rintro rfl
          exact hcontrol cs rfl
        · rintro rfl
          exact hcommand cs rfl
      rw [Mode.after_escape_cons hd]
      refine ⟨.dropped :: read, tail, fun rest => ?_, hends⟩
      have hhead : ∀ c ∈ (d :: cs ++ rest).head?, c ≠ '[' ∧ c ≠ ']' := by simpa using hd
      rw [List.cons_append, tokens_escape_cons hhead, htokens]
      rfl

theorem whole_of_endsOutside {cs : List Char} (h : endsOutside cs = true) : Whole cs := by
  obtain ⟨read, tail, htokens, htext, -⟩ := exists_tokens_append cs
  obtain rfl := htext (of_decide_eq_true h)
  have hcs : tokens cs = read := by simpa using htokens []
  intro rest
  rw [htokens, hcs]
  rfl

/-- An escape character at the end of a text and a bracket behind it begin a control sequence. -/
lemma stripEscapes_append_bracket {cs : List Char} (h : Mode.text.after cs = .escape) :
    stripEscapes (cs ++ ['[', 'm']) = stripEscapes cs := by
  obtain ⟨read, tail, htokens, -, hescape⟩ := exists_tokens_append cs
  obtain rfl := hescape h
  have hcs : tokens cs = read ++ [.dropped] := by
    have hnone := htokens []
    rwa [List.append_nil, List.append_nil, tokens_escape_cons (by simp), tokens_nil] at hnone
  have hbracket : tokens (cs ++ ['[', 'm']) = read ++ [.sgr []] := by
    have hspell := tokens_spell_append (List.forall_mem_nil fun c => isLetter c = false) []
    rw [tokens_nil] at hspell
    rw [htokens, ← hspell]
    rfl
  rw [stripEscapes, stripEscapes, hcs, hbracket, visible, visible, List.filterMap_append,
    List.filterMap_append]
  rfl

/-- Only a text that ends outside of every sequence shows the same before every other. -/
theorem endsOutside_of_stripEscapes_append {cs : List Char}
    (h : ∀ ds, stripEscapes (cs ++ ds) = stripEscapes cs ++ stripEscapes ds) :
    endsOutside cs = true := by
  have hclosed : endsOpen cs = false := by
    refine (stripEscapes_append_blank_iff cs).1 fun ds => ?_
    have hblank : stripEscapes (' ' :: ds) = ' ' :: stripEscapes ds := by
      rw [stripEscapes, tokens_char_cons (by decide)]
      rfl
    rw [h, hblank]
  unfold endsOpen at hclosed
  cases hmode : Mode.text.after cs with
  | text => exact decide_eq_true hmode
  | escape =>
    have hbare : escapeChar ∉ ['[', 'm'] := by decide
    have hbracket := stripEscapes_append_bracket hmode
    rw [h, stripEscapes_of_notMem hbare] at hbracket
    simp at hbracket
  | control | command | commandEscape =>
    rw [hmode] at hclosed
    cases hclosed

/-- No escape character is ever shown. -/
theorem escape_notMem_stripEscapes (cs : List Char) : escapeChar ∉ stripEscapes cs := by
  have hvisible (tokens : List Token) (h : .char escapeChar ∉ tokens) :
      escapeChar ∉ visible tokens := by
    intro hmem
    obtain ⟨token, htoken, hshown⟩ := List.mem_filterMap.1 hmem
    cases token with
    | char c =>
      obtain rfl := Option.some.inj hshown
      exact h htoken
    | sgr params => cases hshown
    | dropped => cases hshown
  refine hvisible _ ?_
  fun_induction tokens cs with
  | case1 => exact List.not_mem_nil
  | case2 c cs hc ih => simp [Ne.symm hc, ih]
  | case3 => exact List.not_mem_nil
  | case4 c hc body letter rest hbody ih => split <;> simpa using ih
  | case5 c hc body ih => simpa using ih
  | case6 c hc cs hcontrol hcommand ih => simpa using ih

lemma text_ne_nil_of_mem_runsFrom {style : TextStyle} {reversed : List Char} {tokens : List Token}
    {run : Run} (h : run ∈ runsFrom style reversed tokens) : run.text ≠ [] := by
  have hclosed {style : TextStyle} {reversed : List Char} (h : run ∈ closeRun style reversed) :
      run.text ≠ [] := by
    rw [closeRun] at h
    split at h
    · cases h
    · next hne =>
      obtain rfl := List.mem_singleton.1 h
      simpa using hne
  induction tokens generalizing style reversed with
  | nil => exact hclosed h
  | cons token tokens ih =>
    cases token with
    | char c => exact ih h
    | dropped => exact ih h
    | sgr params =>
      simp only [runsFrom] at h
      split at h
      · exact ih h
      · exact (List.mem_append.1 h).elim hclosed ih

namespace Scanner

/-- What is shown, whatever the styles, is the text without its sequences. -/
lemma map_fst_shown (scanner : Scanner) (cs : List Char) :
    ((scanner.runs cs).flatMap Run.shown).map Prod.fst = stripEscapes cs := by
  rw [runs, shown_runsFrom]
  exact (visible_eq_map_shownIn _ _).symm

/-- Two texts that are fed one after the other are read as both at once are. -/
structure FedInChunks (scanner : Scanner) (front back : List Char) : Prop where
  shown : (scanner.feed (front ++ back)).1.flatMap Run.shown =
    (scanner.feed front).1.flatMap Run.shown ++
      ((scanner.feed front).2.feed back).1.flatMap Run.shown
  state : (scanner.feed (front ++ back)).2 = ((scanner.feed front).2.feed back).2

lemma fedInChunks_of_whole (scanner : Scanner) {front : List Char} (h : Whole front)
    (back : List Char) : scanner.FedInChunks front back := by
  refine ⟨?_, after_append scanner h back⟩
  simp only [feed, runs, shown_runsFrom, h back, shownIn_append]
  rfl

/-- A text can be fed in two chunks, whatever the second one is, just if the first one ends outside
of every sequence. No text gives a run that is empty or shows an escape character. -/
theorem fedInChunks_iff (scanner : Scanner) :
    (∀ front, (∀ back, scanner.FedInChunks front back) ↔ endsOutside front = true) ∧
      ∀ cs, ∀ run ∈ (scanner.feed cs).1, run.text ≠ [] ∧ escapeChar ∉ run.text := by
  refine ⟨fun front => ⟨fun h => ?_, fun h => scanner.fedInChunks_of_whole (whole_of_endsOutside h)⟩,
    fun cs run hrun => ⟨text_ne_nil_of_mem_runsFrom hrun, fun hmem => ?_⟩⟩
  · refine endsOutside_of_stripEscapes_append fun back => ?_
    have hshown := congrArg (List.map Prod.fst) (h back).shown
    rw [List.map_append] at hshown
    simpa only [feed, map_fst_shown] using hshown
  · have hshown : (escapeChar, run.style) ∈ (scanner.runs cs).flatMap Run.shown :=
      List.mem_flatMap.2 ⟨run, hrun, List.mem_map_of_mem hmem⟩
    have hvisible := List.mem_map_of_mem (f := Prod.fst) hshown
    rw [map_fst_shown] at hvisible
    exact escape_notMem_stripEscapes cs hvisible

/-- A style that goes on into the second chunk, and a sequence that is broken off at its end. -/
theorem fedInChunks_bold :
    let front := "\x1b[31;1mbo\x1b]0;t\x07".toList
    let back := "ld\x1b[22mer\x1b[2".toList
    let run : Run := ⟨['b', 'o'], TextStyle.plain.set .bold true⟩
    start.FedInChunks front back ∧ run ∈ (start.feed front).1 ∧ run.text ≠ [] ∧
      escapeChar ∉ run.text := by
  intro front back run
  have hends : endsOutside front = true := by decide +kernel
  have hrun : run ∈ (start.feed front).1 := by decide +kernel
  obtain ⟨hchunks, hruns⟩ := fedInChunks_iff start
  exact ⟨(hchunks front).2 hends back, hrun, hruns front run hrun⟩

end Scanner

end Interchange.Terminal
