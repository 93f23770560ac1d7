import Interchange.Proofs.Text.Paragraphs
import Interchange.Terminal.Scanner

/-!
# Style codes one after the other

What a code says of one style does not depend on the style before it: on, off, or nothing. So the
last code that says something of a style decides it, and sequences in a row are one sequence.
-/
namespace Interchange.Terminal

/-- What a code says of one style: on, off, or nothing. A reset switches every style off, and a code
without characters is a reset. -/
def decided? (flag : StyleFlag) (code : String) : Option Bool :=
  if code = onCode flag then some true
  else if code = offCode flag ∨ code = "0" ∨ code = "" then some false
  else none

lemma decided?_eq_none_iff {flag : StyleFlag} {code : String} : decided? flag code = none ↔
    code ≠ onCode flag ∧ code ≠ offCode flag ∧ code ≠ "0" ∧ code ≠ "" := by
  unfold decided?
  split_ifs with hon hoff
  · simp [hon]
  · simp only [false_iff]
    tauto
  · simp only [true_iff]
    tauto

/-- The code that switches a style says nothing of another. -/
lemma decided?_onCode (flag other : StyleFlag) :
    decided? other (onCode flag) = if flag = other then some true else none := by
  cases flag <;> cases other <;> decide

lemma decided?_offCode (flag other : StyleFlag) :
    decided? other (offCode flag) = if flag = other then some false else none := by
  cases flag <;> cases other <;> decide

lemma changeOf_onCode (flag : StyleFlag) : changeOf (onCode flag) = .set flag true := by
  cases flag <;> decide

lemma changeOf_offCode (flag : StyleFlag) : changeOf (offCode flag) = .set flag false := by
  cases flag <;> decide

lemma changeOf_of_notMem {code : String} (hreset : ¬(code = "" ∨ code = "0"))
    (hon : ∀ flag, code ≠ onCode flag) (hoff : ∀ flag, code ≠ offCode flag) :
    changeOf code = .ignore := by
  have hnoOn : StyleFlag.all.find? (onCode · = code) = none :=
    List.find?_eq_none.2 fun flag _ h => hon flag (of_decide_eq_true h).symm
  have hnoOff : StyleFlag.all.find? (offCode · = code) = none :=
    List.find?_eq_none.2 fun flag _ h => hoff flag (of_decide_eq_true h).symm
  rw [changeOf, if_neg hreset, hnoOn, hnoOff]

/-- Each code acts on one style as if there were no other. -/
lemma get_apply_changeOf (style : TextStyle) (code : String) (flag : StyleFlag) :
    ((changeOf code).apply style).get flag = (decided? flag code).getD (style.get flag) := by
  by_cases hreset : code = "" ∨ code = "0"
  · have hoff : decided? flag code = some false := by
      rcases hreset with rfl | rfl <;> cases flag <;> decide
    rw [changeOf, if_pos hreset, hoff]
    exact TextStyle.get_plain flag
  by_cases hon : ∃ other, code = onCode other
  · obtain ⟨other, rfl⟩ := hon
    rw [changeOf_onCode, decided?_onCode, Change.apply, TextStyle.get_set]
    split_ifs <;> rfl
  by_cases hoff : ∃ other, code = offCode other
  · obtain ⟨other, rfl⟩ := hoff
    rw [changeOf_offCode, decided?_offCode, Change.apply, TextStyle.get_set]
    split_ifs <;> rfl
  · rw [not_exists] at hon hoff
    have hnone : decided? flag code = none :=
      decided?_eq_none_iff.2
        ⟨hon flag, hoff flag, fun h => hreset (.inr h), fun h => hreset (.inl h)⟩
    rw [changeOf_of_notMem hreset hon hoff, hnone]
    rfl

/-- A code is ignored when it says nothing of any style. -/
lemma changeOf_eq_ignore_iff {code : String} :
    changeOf code = .ignore ↔ ∀ flag, decided? flag code = none := by
  constructor
  · intro h flag
    have hkeep (style : TextStyle) :
        style.get flag = (decided? flag code).getD (style.get flag) := by
      rw [← get_apply_changeOf, h]
      rfl
    cases hcode : decided? flag code with
    | none => rfl
    | some on =>
      have hboth := hkeep (TextStyle.plain.set flag !on)
      rw [hcode, TextStyle.get_set, if_pos rfl] at hboth
      cases on <;> cases hboth
  · intro h
    simp only [decided?_eq_none_iff] at h
    obtain ⟨-, -, hzero, hempty⟩ := h .bold
    exact changeOf_of_notMem (not_or.2 ⟨hempty, hzero⟩) (fun flag => (h flag).1)
      fun flag => (h flag).2.1

lemma applyCodes_append (style : TextStyle) (front back : List String) :
    applyCodes style (front ++ back) = applyCodes (applyCodes style front) back :=
  List.foldl_append

/-- What the last code that says something of a style says of it. -/
def lastDecided? (flag : StyleFlag) (codes : List String) : Option Bool :=
  codes.reverse.findSome? (decided? flag)

/-- The induction is on the codes from the last one back. -/
theorem get_applyCodes (style : TextStyle) (codes : List String) (flag : StyleFlag) :
    (applyCodes style codes).get flag = (lastDecided? flag codes).getD (style.get flag) := by
  induction codes using List.reverseRecOn with
  | nil => rfl
  | append_singleton codes code ih =>
    have hlast : applyCodes style (codes ++ [code]) =
        (changeOf code).apply (applyCodes style codes) := by
      rw [applyCodes_append]
      rfl
    rw [hlast, get_apply_changeOf, ih, lastDecided?, lastDecided?, List.reverse_append,
      List.reverse_singleton, List.singleton_append, List.findSome?_cons]
    cases decided? flag code <;> rfl

lemma codes_append (p q : List Char) : codes (p ++ ';' :: q) = codes p ++ codes q := by
  rw [codes, Text.splitAt_append_cons, List.map_append]
  rfl

/-- Two sequences in a row are one sequence with the codes of both, in the style that they give and
in the codes that they ignore, which are those that say nothing of any style. Each style is what the
last code that says something of it says, and as before when none does; so a sequence once more
changes nothing. -/
theorem applySgr_last_decides (style : TextStyle) (p q : List Char) :
    (applySgr (applySgr style p) q = applySgr style (p ++ ';' :: q) ∧
      ∀ known, addCodes (addCodes known (ignoredCodes p)) (ignoredCodes q) =
        addCodes known (ignoredCodes (p ++ ';' :: q))) ∧
    (∀ code, code ∈ ignoredCodes p ↔ code ∈ codes p ∧ ∀ flag, decided? flag code = none) ∧
    (∀ flag, (applySgr style p).get flag =
      (lastDecided? flag (codes p)).getD (style.get flag)) ∧
    applySgr (applySgr style p) p = applySgr style p := by
  refine ⟨⟨?_, fun known => ?_⟩, fun code => ?_, get_applyCodes style (codes p), ?_⟩
  · rw [applySgr, applySgr, applySgr, codes_append, applyCodes_append]
  · rw [ignoredCodes, ignoredCodes, ignoredCodes, codes_append, List.filter_append, addCodes,
      addCodes, addCodes, List.foldl_append]
  · rw [ignoredCodes, List.mem_filter, decide_eq_true_iff, changeOf_eq_ignore_iff]
  · refine TextStyle.ext_get fun flag => ?_
    rw [applySgr, applySgr, get_applyCodes, get_applyCodes]
    cases lastDecided? flag (codes p) <;> rfl

/-- An empty code resets, and what follows it counts. -/
example : applySgr TextStyle.plain "1; 3 ;;77;4;24;9".toList =
    TextStyle.plain.set .strikethrough true := by
  decide +kernel

end Interchange.Terminal
