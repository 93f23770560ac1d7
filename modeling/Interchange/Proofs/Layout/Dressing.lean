import Interchange.Layout.Render
import Interchange.Proofs.Terminal.Tokens
import Interchange.Proofs.Text.Letters
import Interchange.Proofs.Text.Paragraphs

/-!
# Text dressed with sequences

On a terminal the text of a layout has style sequences around some of its characters. Which
characters those may be decides what can be done to the text without the sequences making a
difference: it falls into the same lines when none of them is a line feed, and is trimmed to the
same text when none of them is blank.
-/
namespace Interchange.Layout

open Terminal (escapeChar stripEscapes Whole)

/-- A text that shows nothing, has no line feed and cannot be trimmed at its end. -/
structure Silent (cs : Chars) : Prop where
  whole : Whole cs
  hidden : stripEscapes cs = []
  unbroken : '\n' ∉ cs
  firm : ∀ c ∈ cs.getLast?, Text.isBlank c = false

namespace Silent

lemma nil : Silent [] where
  whole := .nil
  hidden := Terminal.stripEscapes_nil
  unbroken := List.not_mem_nil
  firm := by simp

lemma append {cs ds : Chars} (hcs : Silent cs) (hds : Silent ds) : Silent (cs ++ ds) where
  whole := hcs.whole.append hds.whole
  hidden := by rw [Terminal.stripEscapes_append hcs.whole, hcs.hidden, hds.hidden, List.append_nil]
  unbroken := by
    rw [List.mem_append, not_or]
    exact ⟨hcs.unbroken, hds.unbroken⟩
  firm c hc := by
    rw [List.getLast?_append, Option.mem_def, Option.or_eq_some_iff] at hc
    rcases hc with hc | ⟨-, hc⟩
    · exact hds.firm c hc
    · exact hcs.firm c hc

lemma sequence {code : String} (hletter : ∀ c ∈ code.toList, Terminal.isLetter c = false)
    (hbreak : '\n' ∉ code.toList) : Silent (sequence code) where
  whole := .spell hletter
  hidden := Terminal.stripEscapes_spell hletter
  unbroken := by
    have hescape : '\n' ≠ escapeChar := by decide
    simp [Layout.sequence, hescape, hbreak]
  firm c hc := by
    have hlast : (Layout.sequence code).getLast? = some 'm' := List.getLast?_concat
    rw [hlast] at hc
    obtain rfl := Option.some.inj hc
    decide

lemma onCode (flag : StyleFlag) : Silent (Layout.sequence (Terminal.onCode flag)) :=
  sequence (Terminal.isLetter_onCode flag) (by cases flag <;> decide)

lemma offCode (flag : StyleFlag) : Silent (Layout.sequence (Terminal.offCode flag)) :=
  sequence (Terminal.isLetter_offCode flag) (by cases flag <;> decide)

end Silent

/-- The first text is the second with sequences around some characters, all of them characters
that may stand at the edge of styled text. -/
inductive Dressed (edge : Char → Bool) : Chars → Chars → Prop
  | nil : Dressed edge [] []
  | char {c : Char} {cs ds : Chars} (visible : c ≠ escapeChar) (rest : Dressed edge cs ds) :
      Dressed edge (c :: cs) (c :: ds)
  | switched {c : Char} {before behind cs ds : Chars} (visible : c ≠ escapeChar)
      (allowed : edge c = true) (hbefore : Silent before) (hbehind : Silent behind)
      (rest : Dressed edge cs ds) : Dressed edge (before ++ c :: behind ++ cs) (c :: ds)

namespace Dressed

variable {edge : Char → Bool} {cs ds cs' ds' : Chars}

/-- A text without escape characters, as it is. -/
lemma refl (h : escapeChar ∉ cs) : Dressed edge cs cs := by
  induction cs with
  | nil => exact .nil
  | cons c cs ih =>
    simp only [List.mem_cons, not_or] at h
    exact .char (Ne.symm h.1) (ih h.2)

lemma mono {edge' : Char → Bool} (hedge : ∀ c, edge c = true → edge' c = true)
    (h : Dressed edge cs ds) : Dressed edge' cs ds := by
  induction h with
  | nil => exact .nil
  | char visible _ ih => exact .char visible ih
  | switched visible allowed hbefore hbehind _ ih =>
    exact .switched visible (hedge _ allowed) hbefore hbehind ih

lemma append (h : Dressed edge cs ds) (h' : Dressed edge cs' ds') :
    Dressed edge (cs ++ cs') (ds ++ ds') := by
  induction h with
  | nil => exact h'
  | char visible _ ih => exact .char visible ih
  | switched visible allowed hbefore hbehind _ ih =>
    rw [List.append_assoc]
    exact .switched visible allowed hbefore hbehind ih

lemma eq_nil_iff (h : Dressed edge cs ds) : cs = [] ↔ ds = [] := by
  cases h <;> simp

lemma isEmpty_eq (h : Dressed edge cs ds) : cs.isEmpty = ds.isEmpty := by
  rw [Bool.eq_iff_iff, List.isEmpty_iff, List.isEmpty_iff, h.eq_nil_iff]

/-- Where no character may stand at an edge there are no sequences. -/
lemma eq_of_bare (h : Dressed (fun _ => false) cs ds) : cs = ds := by
  induction h with
  | nil => rfl
  | char _ _ ih => rw [ih]
  | switched _ allowed => cases allowed

lemma escape_notMem (h : Dressed edge cs ds) : escapeChar ∉ ds := by
  induction h with
  | nil => exact List.not_mem_nil
  | char visible _ ih => simpa using ⟨Ne.symm visible, ih⟩
  | switched visible _ _ _ _ ih => simpa using ⟨Ne.symm visible, ih⟩

/-- The visible characters of a dressed text are the text. -/
theorem stripEscapes_eq (h : Dressed edge cs ds) : stripEscapes cs = ds := by
  have shown {c : Char} (hc : c ≠ escapeChar) (cs : Chars) :
      stripEscapes (c :: cs) = c :: stripEscapes cs := by
    rw [stripEscapes, Terminal.tokens_char_cons hc]
    rfl
  induction h with
  | nil => exact Terminal.stripEscapes_nil
  | char visible _ ih => rw [shown visible, ih]
  | switched visible _ hbefore hbehind _ ih =>
    rw [List.append_assoc, Terminal.stripEscapes_append hbefore.whole, hbefore.hidden,
      List.nil_append, List.cons_append, shown visible, Terminal.stripEscapes_append hbehind.whole,
      hbehind.hidden, List.nil_append, ih]

lemma prepend {before : Chars} (hbefore : Silent before) (h : Dressed edge cs ds) (hne : ds ≠ [])
    (hfirst : ∀ c ∈ ds.head?, edge c = true) : Dressed edge (before ++ cs) ds := by
  cases h with
  | nil => exact absurd rfl hne
  | @char c cs ds visible rest =>
    have hone := Dressed.switched visible (hfirst c rfl) hbefore .nil rest
    simpa using hone
  | @switched c inner behind cs ds visible allowed hinner hbehind rest =>
    rw [← List.append_assoc, ← List.append_assoc]
    exact .switched visible allowed (hbefore.append hinner) hbehind rest

lemma postpend {behind : Chars} (hbehind : Silent behind) (h : Dressed edge cs ds) (hne : ds ≠ [])
    (hlast : ∀ c ∈ ds.getLast?, edge c = true) : Dressed edge (cs ++ behind) ds := by
  -- The induction goes on to the last character, which gets the sequences behind its own.
  induction h with
  | nil => exact absurd rfl hne
  | @char c cs ds visible rest ih =>
    by_cases hrest : ds = []
    · subst hrest
      obtain rfl := rest.eq_nil_iff.2 rfl
      have hone := Dressed.switched visible (hlast c rfl) .nil hbehind .nil
      simpa using hone
    · refine .char visible (ih hrest fun d hd => hlast d ?_)
      rwa [List.getLast?_cons_of_ne_nil hrest]
  | @switched c before inner cs ds visible allowed hbefore hinner rest ih =>
    by_cases hrest : ds = []
    · subst hrest
      obtain rfl := rest.eq_nil_iff.2 rfl
      have hone := Dressed.switched visible allowed hbefore (hinner.append hbehind) .nil
      simpa using hone
    · rw [List.append_assoc]
      refine .switched visible allowed hbefore hinner (ih hrest fun d hd => hlast d ?_)
      rwa [List.getLast?_cons_of_ne_nil hrest]

/-- Where no line feed stands at an edge, a dressed text falls into the same lines. -/
theorem lines (hedge : edge '\n' = false) (h : Dressed edge cs ds) :
    List.Forall₂ (Dressed edge) (lines cs) (lines ds) := by
  have front {head head' cs ds : Chars} (hhead : Dressed edge head head') (hcs : '\n' ∉ head)
      (hds : '\n' ∉ head')
      (hlines : List.Forall₂ (Dressed edge) (Layout.lines cs) (Layout.lines ds)) :
      List.Forall₂ (Dressed edge) (Layout.lines (head ++ cs)) (Layout.lines (head' ++ ds)) := by
    rw [Layout.lines, Layout.lines, Text.splitAt_append hcs, Text.splitAt_append hds]
    unfold Layout.lines at hlines
    generalize Text.splitAt '\n' cs = pieces at hlines ⊢
    generalize Text.splitAt '\n' ds = pieces' at hlines ⊢
    cases hlines with
    | nil => exact .nil
    | cons hfirst hrest => exact .cons (hhead.append hfirst) hrest
  induction h with
  | nil => exact .cons .nil .nil
  | @char c cs ds visible rest ih =>
    by_cases hc : c = '\n'
    · subst hc
      rw [Layout.lines, Layout.lines, Text.splitAt_cons_self, Text.splitAt_cons_self]
      exact .cons .nil ih
    · have hone : '\n' ∉ [c] := by simpa using Ne.symm hc
      exact front (.char visible .nil) hone hone ih
  | @switched c before behind cs ds visible allowed hbefore hbehind rest ih =>
    have hc : '\n' ≠ c := by
      rintro rfl
      rw [hedge] at allowed
      cases allowed
    have hhead : Dressed edge (before ++ c :: behind) [c] := by
      have hone := Dressed.switched visible allowed hbefore hbehind .nil
      simpa using hone
    refine front hhead ?_ (by simpa using hc) ih
    simp [hbefore.unbroken, hc, hbehind.unbroken]

/-- Where no blank stands at an edge, a dressed text is trimmed to the same text. -/
theorem stripEnd (hedge : ∀ c, edge c = true → Text.isBlank c = false) (h : Dressed edge cs ds) :
    Dressed edge (Text.stripEnd cs) (Text.stripEnd ds) := by
  induction h with
  | nil => exact .nil
  | @char c cs ds visible rest ih =>
    have hone : escapeChar ∉ [c] := by simpa using Ne.symm visible
    rw [← List.singleton_append, Text.stripEnd_append, ← List.singleton_append (l := ds),
      Text.stripEnd_append, ih.isEmpty_eq]
    split
    · exact .refl fun hmem => hone (Text.mem_of_mem_stripEnd hmem)
    · exact .char visible ih
  | @switched c before behind cs ds visible allowed hbefore hbehind rest ih =>
    have hc : ∀ d ∈ [c].getLast?, Text.isBlank d = false := by
      simpa using hedge c allowed
    have hlast : ∀ d ∈ (before ++ c :: behind).getLast?, Text.isBlank d = false := by
      intro d hd
      rw [List.getLast?_append, List.getLast?_cons, Option.some_or, Option.mem_def,
        Option.some_inj] at hd
      cases hbehind_last : behind.getLast? with
      | none =>
        rw [hbehind_last] at hd
        obtain rfl : c = d := hd
        exact hedge c allowed
      | some last =>
        rw [hbehind_last] at hd
        obtain rfl : last = d := hd
        exact hbehind.firm last hbehind_last
    rw [Text.stripEnd_append_of_last hlast, ← List.singleton_append (l := ds),
      Text.stripEnd_append_of_last hc]
    exact .switched visible allowed hbefore hbehind ih

end Dressed

end Interchange.Layout
