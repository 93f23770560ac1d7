import Interchange.Proofs.Text.Words
import Interchange.Text.Lines

/-!
# Lines, paragraphs and pages one after the other

What a first line, a first paragraph or a first page break adds to what the rest of a text falls
into. Every paragraph that comes out is collapsed text with at least one word.
-/
namespace Interchange.Text

/-- A text without line breaks that is followed by a line feed is the first line. -/
theorem splitLines_append {line : List Char} (hline : ∀ c ∈ line, isLineBreak c = false)
    (cs : List Char) : splitLines (line ++ '\n' :: cs) = line :: splitLines cs := by
  induction line with
  | nil =>
    rw [List.nil_append, splitLines]
    · simp [isLineBreak]
    · simp
  | cons c line ih =>
    obtain ⟨hc, hrest⟩ := List.forall_mem_cons.1 hline
    have hreturn : c ≠ '\r' := by
      rintro rfl
      exact absurd hc (by decide)
    rw [List.cons_append, splitLines]
    · simp [hc, ih hrest]
    · intro _ hcr
      exact absurd hcr hreturn

lemma splitLines_lineFeed_cons (cs : List Char) :
    splitLines ('\n' :: cs) = [] :: splitLines cs := by
  have hnil : ∀ c ∈ ([] : List Char), isLineBreak c = false := by simp
  exact splitLines_append hnil cs

lemma splitLines_cons {c : Char} (hc : isLineBreak c = false) {cs line : List Char}
    {lines : List (List Char)} (h : splitLines cs = line :: lines) :
    splitLines (c :: cs) = (c :: line) :: lines := by
  rw [splitLines]
  · simp [hc, h]
  · rintro _ rfl
    exact absurd hc (by decide)

lemma splitLines_break_cons {c : Char} (hc : isLineBreak c = true) {cs : List Char}
    (hcs : c = '\r' → cs.head? ≠ some '\n') : splitLines (c :: cs) = [] :: splitLines cs := by
  rw [splitLines]
  · simp [hc]
  · rintro rest rfl rfl
    exact hcs rfl rfl

lemma splitLines_of_one {line : List Char} (hne : line ≠ [])
    (hline : ∀ c ∈ line, isLineBreak c = false) : splitLines line = [line] := by
  induction line with
  | nil => exact absurd rfl hne
  | cons c line ih =>
    obtain ⟨hc, hrest⟩ := List.forall_mem_cons.1 hline
    cases line with
    | nil => simp [splitLines, hc]
    | cons d line => exact splitLines_cons hc (ih (List.cons_ne_nil d line) hrest)

section Groups

variable {separates : List Char → Bool} {line : List Char} {lines : List (List Char)}

lemma groupLines_cons_of_separates (h : separates line = true) :
    groupLines separates (line :: lines) = groupLines separates lines := by
  rw [groupLines.eq_def]
  simp [h]

/-- A line before one that separates, or at the end, is a group. -/
lemma groupLines_cons (h : separates line = false)
    (hlines : ∀ next ∈ lines.head?, separates next = true) :
    groupLines separates (line :: lines) = [line] :: groupLines separates lines := by
  cases lines with
  | nil =>
    rw [groupLines.eq_def]
    simp [h]
  | cons next rest =>
    have hnext : separates next = true := hlines next rfl
    rw [groupLines.eq_def]
    cases hgroups : groupLines separates (next :: rest) <;> simp [h, hnext, hgroups]

/-- Lines none of which separates, before one that does or at the end, are a group. -/
lemma groupLines_append {front : List (List Char)} (hne : front ≠ [])
    (hfront : ∀ line ∈ front, separates line = false)
    (hlines : ∀ next ∈ lines.head?, separates next = true) :
    groupLines separates (front ++ lines) = front :: groupLines separates lines := by
  induction front with
  | nil => exact absurd rfl hne
  | cons line front ih =>
    obtain ⟨hline, hrest⟩ := List.forall_mem_cons.1 hfront
    cases front with
    | nil => exact groupLines_cons hline hlines
    | cons next front =>
      have hnext : separates next = false := hrest next List.mem_cons_self
      have hgroups := ih (List.cons_ne_nil _ _) hrest
      rw [List.cons_append] at hgroups ⊢
      rw [List.cons_append, groupLines.eq_def]
      simp [hline, hnext, hgroups]

/-- A group has lines, none of which separates. -/
theorem of_mem_groupLines {group : List (List Char)} (h : group ∈ groupLines separates lines) :
    group ≠ [] ∧ ∀ line ∈ group, separates line = false := by
  induction lines generalizing group with
  | nil => simp at h
  | cons line lines ih =>
    cases hline : separates line with
    | true =>
      rw [groupLines_cons_of_separates hline] at h
      exact ih h
    | false =>
      have alone : [line] ≠ [] ∧ ∀ l ∈ [line], separates l = false :=
        ⟨by simp, by simpa using hline⟩
      rw [groupLines.eq_def] at h
      simp only [hline, Bool.false_eq_true, if_false] at h
      split at h
      · next next rest first groups hgroups =>
        rw [hgroups] at ih
        split at h
        · rcases List.mem_cons.1 h with rfl | h
          · exact alone
          · exact ih h
        · rcases List.mem_cons.1 h with rfl | h
          · have hfirst := ih (List.mem_cons_self (a := first) (l := groups))
            exact ⟨by simp, by simpa using ⟨hline, hfirst.2⟩⟩
          · exact ih (List.mem_cons_of_mem first h)
      · rcases List.mem_cons.1 h with rfl | h
        · exact alone
        · exact ih h

end Groups

@[simp] lemma paragraphs_nil : paragraphs [] = [] := rfl

@[simp] lemma paragraphs_lineFeed_cons (cs : List Char) :
    paragraphs ('\n' :: cs) = paragraphs cs := by
  rw [paragraphs, splitLines_lineFeed_cons, groupLines_cons_of_separates rfl]
  rfl

/-- A line that shows something, before an empty line or at the end, is a paragraph. -/
theorem paragraphs_append {line : List Char} (hline : ∀ c ∈ line, isLineBreak c = false)
    (hshown : isBlankLine line = false) {cs : List Char} (hcs : ∀ c ∈ cs.head?, c = '\n') :
    paragraphs (line ++ '\n' :: cs) = collapse line :: paragraphs cs := by
  have hnext : ∀ next ∈ (splitLines cs).head?, isBlankLine next = true := by
    cases cs with
    | nil => simp
    | cons c cs =>
      obtain rfl : c = '\n' := hcs c rfl
      intro next hmem
      rw [splitLines_lineFeed_cons] at hmem
      obtain rfl : [] = next := by simpa using hmem
      rfl
  rw [paragraphs, splitLines_append hline, groupLines_cons hshown hnext, List.map_cons,
    List.intercalate_singleton]
  rfl

/-- Every paragraph is collapsed text that is not empty. -/
theorem of_mem_paragraphs {text cs : List Char} (h : text ∈ paragraphs cs) :
    text ≠ [] ∧ collapse text = text := by
  obtain ⟨lines, hlines, rfl⟩ := List.mem_map.1 h
  refine ⟨fun hnil => ?_, collapse_collapse _⟩
  obtain ⟨hne, hshown⟩ := of_mem_groupLines hlines
  obtain ⟨line, hline⟩ := List.exists_mem_of_ne_nil lines hne
  have hblank := List.all_eq_true.1 (collapse_eq_nil_iff.1 hnil)
  have hall : isBlankLine line = true := by
    refine List.all_eq_true.2 fun c hc => hblank c ?_
    exact mem_intercalate_of_mem hline hc
  rw [hshown line hline] at hall
  cases hall

lemma splitAt_cons_self (separator : Char) (cs : List Char) :
    splitAt separator (separator :: cs) = [] :: splitAt separator cs := by
  simp [splitAt]

lemma splitAt_append_cons (separator : Char) (front back : List Char) :
    splitAt separator (front ++ separator :: back) =
      splitAt separator front ++ splitAt separator back := by
  induction front with
  | nil => rw [List.nil_append, splitAt_cons_self, splitAt, List.singleton_append]
  | cons c front ih =>
    rw [List.cons_append, splitAt, splitAt, ih]
    split
    · rfl
    · cases h : splitAt separator front with
      | nil => exact absurd h (splitAt_ne_nil separator front)
      | cons piece pieces => rfl

/-- A text without the separator goes to the front of the first piece. -/
lemma splitAt_append {separator : Char} {text : List Char} (h : separator ∉ text)
    (cs : List Char) : splitAt separator (text ++ cs) =
      (splitAt separator cs).modifyHead (text ++ ·) := by
  induction text with
  | nil => cases hcs : splitAt separator cs <;> simp [hcs]
  | cons c text ih =>
    simp only [List.mem_cons, not_or] at h
    rw [List.cons_append, splitAt, if_neg (Ne.symm h.1), ih h.2]
    cases hcs : splitAt separator cs with
    | nil => exact absurd hcs (splitAt_ne_nil separator cs)
    | cons piece pieces => rfl

/-- A text without the separator goes to the end of the last piece. -/
lemma splitAt_append_last {separator : Char} {text : List Char} (h : separator ∉ text)
    (cs : List Char) : ∃ above last, splitAt separator cs = above ++ [last] ∧
      splitAt separator (cs ++ text) = above ++ [last ++ text] := by
  induction cs with
  | nil =>
    have htext := splitAt_append h []
    rw [List.append_nil] at htext
    exact ⟨[], [], by simp [splitAt], by simpa [splitAt] using htext⟩
  | cons c cs ih =>
    obtain ⟨above, last, hcs, hlonger⟩ := ih
    rw [List.cons_append, splitAt, splitAt, hcs, hlonger]
    split
    · exact ⟨[] :: above, last, rfl, rfl⟩
    · cases above with
      | nil => exact ⟨[], c :: last, rfl, rfl⟩
      | cons piece above => exact ⟨(c :: piece) :: above, last, rfl, rfl⟩

/-- The first piece begins as the text does. -/
lemma head?_of_splitAt {separator c : Char} {cs piece : List Char} {pieces : List (List Char)}
    (h : splitAt separator cs = piece :: pieces) (hc : c ∈ piece.head?) : c ∈ cs.head? := by
  cases cs with
  | nil =>
    obtain ⟨rfl, -⟩ : piece = [] ∧ pieces = [] := by simpa [splitAt] using h.symm
    simp at hc
  | cons d cs =>
    by_cases hd : d = separator
    · rw [hd, splitAt_cons_self] at h
      obtain ⟨rfl, -⟩ := List.cons.inj h
      simp at hc
    · have hone : separator ∉ [d] := by simpa using Ne.symm hd
      have hfront := splitAt_append hone cs
      rw [List.singleton_append, h] at hfront
      cases hrest : splitAt separator cs with
      | nil => exact absurd hrest (splitAt_ne_nil separator cs)
      | cons first others =>
        rw [hrest] at hfront
        obtain ⟨rfl, -⟩ := List.cons.inj hfront
        simpa using hc

lemma length_splitAt (separator : Char) (cs : List Char) :
    (splitAt separator cs).length = cs.count separator + 1 := by
  induction cs with
  | nil => rfl
  | cons c cs ih =>
    by_cases hc : c = separator
    · rw [hc, splitAt_cons_self, List.length_cons, ih, List.count_cons_self]
    · rw [List.count_cons_of_ne hc, ← ih, splitAt, if_neg hc]
      cases hcs : splitAt separator cs with
      | nil => exact absurd hcs (splitAt_ne_nil separator cs)
      | cons piece pieces => rfl

lemma notMem_of_mem_splitAt {separator : Char} {cs piece : List Char}
    (h : piece ∈ splitAt separator cs) : separator ∉ piece := by
  induction cs generalizing piece with
  | nil =>
    obtain rfl : piece = [] := by simpa [splitAt] using h
    exact List.not_mem_nil
  | cons c cs ih =>
    by_cases hc : c = separator
    · rw [hc, splitAt_cons_self] at h
      rcases List.mem_cons.1 h with rfl | h
      · exact List.not_mem_nil
      · exact ih h
    · rw [splitAt, if_neg hc] at h
      cases hcs : splitAt separator cs with
      | nil => exact absurd hcs (splitAt_ne_nil separator cs)
      | cons first pieces =>
        rw [hcs] at h ih
        rcases List.mem_cons.1 h with rfl | h
        · rw [List.mem_cons, not_or]
          exact ⟨Ne.symm hc, ih List.mem_cons_self⟩
        · exact ih (List.mem_cons_of_mem first h)

lemma pages_ne_nil (cs : List Char) : pages cs ≠ [] := by
  simp [pages, splitAt_ne_nil]

@[simp] lemma pages_nil : pages [] = [[]] := rfl

@[simp] lemma pages_formFeed_cons (cs : List Char) : pages (formFeed :: cs) = [] :: pages cs := by
  rw [pages, splitAt_cons_self]
  rfl

@[simp] lemma pages_lineFeed_cons (cs : List Char) : pages ('\n' :: cs) = pages cs := by
  have hone : formFeed ∉ ['\n'] := by decide
  have hsplit := splitAt_append hone cs
  rw [pages, ← List.singleton_append, hsplit, pages]
  cases h : splitAt formFeed cs with
  | nil => rfl
  | cons page rest => simp

/-- A first line that shows something, before an empty line or at the end, is the first paragraph of
the first page. -/
theorem pages_append {line : List Char} (hline : ∀ c ∈ line, isLineBreak c = false)
    (hshown : isBlankLine line = false) {cs : List Char} (hcs : ∀ c ∈ cs.head?, c = '\n') :
    pages (line ++ '\n' :: cs) = (pages cs).modifyHead (collapse line :: ·) := by
  have hfeed : formFeed ∉ line ++ ['\n'] := by
    rw [List.mem_append, not_or]
    refine ⟨fun hmem => ?_, by decide⟩
    exact absurd (hline formFeed hmem) (by decide)
  have hsplit := splitAt_append hfeed cs
  rw [List.append_assoc, List.singleton_append] at hsplit
  rw [pages, hsplit, pages]
  cases h : splitAt formFeed cs with
  | nil => rfl
  | cons page rest =>
    have hpage : ∀ c ∈ page.head?, c = '\n' := fun c hc => hcs c (head?_of_splitAt h hc)
    have hparagraphs := paragraphs_append hline hshown hpage
    simp [hparagraphs]

end Interchange.Text
