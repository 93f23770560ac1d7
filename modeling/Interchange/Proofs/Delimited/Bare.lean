import Interchange.Proofs.Delimited.Grammar

/-!
# Fields that need no quotes

A scan only ever takes characters away. So a field that comes back whole and alone was never cut,
never trimmed and held no quote, and those are the fields that are written without quotes.
-/
namespace Interchange.Delimited

variable {d q : Char}

/-- A piece between separators holds none of them. -/
lemma sublist_filter_of_mem_splitOnP {α : Type} {p : α → Bool} {l piece : List α}
    (h : piece ∈ l.splitOnP p) : piece.Sublist (l.filter (!p ·)) := by
  induction l generalizing piece with
  | nil =>
    obtain rfl := List.mem_singleton.1 h
    exact .refl _
  | cons x l ih =>
    rw [List.splitOnP_cons_eq_if_modifyHead] at h
    split at h
    · next hx =>
      rw [List.filter_cons_of_neg (by simp [hx])]
      rcases List.mem_cons.1 h with rfl | hlater
      · exact List.nil_sublist _
      · exact ih hlater
    · next hx =>
      obtain ⟨first, others, hsplit⟩ := List.exists_cons_of_ne_nil (List.splitOnP_ne_nil p l)
      rw [hsplit] at h ih
      rw [List.filter_cons_of_pos (by simpa using hx)]
      rcases List.mem_cons.1 h with rfl | hlater
      · exact (ih List.mem_cons_self).cons_cons x
      · exact (ih (List.mem_cons_of_mem _ hlater)).cons x

lemma joinBreaks_sublist (ps : List Piece) : (joinBreaks ps).Sublist ps := by
  fun_induction joinBreaks ps with
  | case1 => exact .refl _
  | case2 p => exact .refl _
  | case3 p p' ps _ ih => exact (ih.cons p').cons_cons p
  | case4 p p' ps _ ih => exact ih.cons_cons p

lemma unquoted_sublist (ps : List Piece) : (unquoted q ps).Sublist ps := by
  fun_induction unquoted q ps with
  | case1 => exact .refl _
  | case2 p ps _ ih => exact ih.cons p
  | case3 p ps _ ih => exact ih.cons_cons p

/-- The first quote of a line opens and is taken away. -/
lemma IsMarked.notMem_of_unquoted_eq {line : List Piece} (hline : IsMarked q false line)
    (h : unquoted q line = line) : q ∉ line.map Piece.char := by
  induction line with
  | nil => exact List.not_mem_nil
  | cons p line ih =>
    by_cases hq : p.char = q
    · have hdropped : unquoted q (p :: line) = unquoted q line :=
        unquoted_cons_of_drops hq fun hin => absurd (hline.1.symm.trans hin) Bool.false_ne_true
      have hle := (unquoted_sublist (q := q) line).length_le
      rw [← hdropped, h, List.length_cons] at hle
      omega
    · rw [unquoted_cons_of_keeps fun heq => absurd heq hq] at h
      have hrest : IsMarked q false line := by
        have := hline.2
        rwa [beq_false_of_ne hq, Bool.xor_false] at this
      rw [List.map_cons, List.mem_cons, not_or]
      exact ⟨Ne.symm hq, ih hrest (List.cons.inj h).2⟩

lemma length_marked (cs : List Char) : (marked q cs).length = cs.length := List.length_mapIdx

lemma map_char_marked (cs : List Char) : (marked q cs).map Piece.char = cs := by
  refine List.ext_getElem (by simp [marked]) fun i _ _ => ?_
  simp [marked]

/-- A line that is one field as long as the whole text is the text, and nothing was taken away. -/
lemma eq_marked_of_fieldsOf {cs : List Char} {line : List Piece} (hline : line ∈ linesOf q cs)
    (hfields : fieldsOf d q line = [cs]) :
    line = marked q cs ∧ unquoted q line = line ∧ (∀ p ∈ line, p.isBare d = false) ∧
      fieldOf q line = cs := by
  obtain ⟨hbare, hfield⟩ := fieldsOf_eq_singleton_iff.1 hfields
  have htrimmed : ((unquoted q line).dropWhile Piece.isMargin).rdropWhile Piece.isMargin
      |>.Sublist (unquoted q line) :=
    (List.rdropWhile_prefix _ _).sublist.trans (List.dropWhile_sublist _)
  have hkept : cs.length ≤ (unquoted q line).length := by
    have hle := htrimmed.length_le
    rwa [← List.length_map Piece.char, show List.map Piece.char _ = cs from hfield] at hle
  have hwhole : line.Sublist (marked q cs) :=
    ((sublist_filter_of_mem_splitOnP hline).trans List.filter_sublist).trans (joinBreaks_sublist _)
  have hle := (unquoted_sublist (q := q) line).length_le
  have hle' := hwhole.length_le
  rw [length_marked] at hle'
  refine ⟨hwhole.eq_of_length ?_, (unquoted_sublist line).eq_of_length ?_, hbare, hfield⟩
  · rw [length_marked]
    omega
  · omega

lemma marked_of_notMem {cs : List Char} (hq : q ∉ cs) :
    marked q cs = cs.map (Piece.mk · false) := by
  rw [marked_eq_markFrom]
  induction cs with
  | nil => rfl
  | cons c cs ih =>
    rw [List.mem_cons, not_or] at hq
    rw [markFrom, beq_false_of_ne (Ne.symm hq.1), Bool.xor_false, ih hq.2, List.map_cons]

lemma isPlain_of_fieldsOf (h : ProperMarks d q) {cs : List Char} {line : List Piece}
    (hline : line ∈ linesOf q cs) (hfields : fieldsOf d q line = [cs]) : IsPlain d q cs := by
  obtain ⟨rfl, hunquoted, hbare, hfield⟩ := eq_marked_of_fieldsOf hline hfields
  have hq : q ∉ cs := by
    have hchars := (isMarked_of_mem_linesOf h cs _ hline).notMem_of_unquoted_eq hunquoted
    rwa [map_char_marked] at hchars
  have hbreak : ∀ p ∈ marked q cs, p.isBreak = false := fun p hp => by
    simpa using (List.mem_filter.1 ((sublist_filter_of_mem_splitOnP hline).subset hp)).2
  rw [fieldOf, hunquoted, ← finishField_reverse, marked_of_notMem hq] at hfield
  rw [marked_of_notMem hq] at hbare hbreak
  have unbroken {c : Char} (hc : Piece.isBreak ⟨c, false⟩ = true) : c ∉ cs := fun hmem =>
    absurd (hbreak _ (List.mem_map_of_mem hmem)) (by simp [hc])
  refine ⟨fun hmem => ?_, hq, unbroken rfl, unbroken rfl, ?_⟩
  · simpa [Piece.isBare] using hbare _ (List.mem_map_of_mem hmem)
  · exact (finishField_unquoted cs).symm.trans hfield

/-- A plain text is scanned as one field. -/
lemma scanFrom_of_isPlain {cs : List Char} (hplain : IsPlain d q cs) (hcs : cs ≠ []) :
    (scanFrom (.ofChars d q) true .start cs).records = [[cs]] := by
  have hscan := @scanFrom_plain_append d q true .start rfl cs [] hplain.delimiter hplain.quote
    hplain.cr hplain.lf
  rw [List.append_nil] at hscan
  rw [hscan, scanFrom_nil, if_neg]
  · simp [Position.fields, Position.start, hplain.trimmed, Scanned.push, hcs]
  · simp [Position.isStart, Position.start, pieces, hcs]

lemma length_le_doubled (cs : List Char) : cs.length ≤ (doubled [q] cs).length := by
  induction cs with
  | nil => exact Nat.zero_le _
  | cons c cs ih =>
    by_cases hc : c = q
    · subst hc
      rw [doubled_cons_self, List.length_cons, List.length_cons, List.length_cons]
      omega
    · rw [doubled_cons_of_ne hc, List.length_cons, List.length_cons]
      omega

/-- A field between quotes is longer than the field. -/
lemma quoteChars_eq_self_iff {cs : List Char} : quoteChars [d] [q] cs = cs ↔ IsPlain d q cs := by
  rw [← needsQuotes_eq_false_iff, quoteChars]
  constructor
  · intro hsame
    by_contra hquotes
    rw [if_pos (by simpa using hquotes)] at hsame
    have hlength := congrArg List.length hsame
    have hle := length_le_doubled (q := q) cs
    simp only [List.length_append, List.length_singleton] at hlength
    omega
  · intro hplain
    rw [hplain, if_neg Bool.false_ne_true]

/-- A field is written as it is exactly when a scan would give it back from that. -/
theorem quoteField_eq_self_iff (h : ProperMarks d q) {value : String} (hvalue : value ≠ "") :
    quoteField (String.ofList [d]) (String.ofList [q]) value = value ↔
      (scanRecords (.ofChars d q) value).records = [[value]] := by
  have hsame : quoteField (String.ofList [d]) (String.ofList [q]) value = value ↔
      IsPlain d q value.toList := by
    rw [quoteField, String.toList_ofList, String.toList_ofList, ← quoteChars_eq_self_iff,
      ← String.ofList_inj, String.ofList_toList]
  have hscan : (scanRecords (.ofChars d q) value).records = [[value]] ↔
      (scanFrom (.ofChars d q) true .start value.toList).records = [[value.toList]] := by
    have hinjective : Function.Injective (List.map (List.map String.ofList)) :=
      List.map_injective_iff.2 (List.map_injective_iff.2 fun _ _ => String.ofList_inj.1)
    rw [← hinjective.eq_iff, List.map_singleton, List.map_singleton, String.ofList_toList]
    rfl
  rw [hsame, hscan]
  constructor
  · intro hplain
    exact scanFrom_of_isPlain hplain (by simpa using hvalue)
  · intro hrecords
    rw [scanFrom_start h] at hrecords
    have hmem : [value.toList] ∈ recordsIn d q (linesOf q value.toList) := by
      rw [show recordsIn d q (linesOf q value.toList) = _ from hrecords]
      exact List.mem_cons_self
    obtain ⟨line, hline, hfields⟩ := List.mem_map.1 hmem
    exact isPlain_of_fieldsOf h (List.mem_of_mem_filter hline) hfields

/-- A tab in the middle of a field needs no quotes where a comma separates. -/
theorem quoteField_eq_self_iff_innerTab :
    ProperMarks ',' '"' ∧ "a\tb; c" ≠ "" ∧
      quoteField (String.ofList [',']) (String.ofList ['"']) "a\tb; c" = "a\tb; c" ∧
      (scanRecords (.ofChars ',' '"') "a\tb; c").records = [["a\tb; c"]] :=
  have h : ProperMarks ',' '"' := by constructor <;> decide
  have hvalue : "a\tb; c" ≠ "" := by decide
  have hsame : quoteField (String.ofList [',']) (String.ofList ['"']) "a\tb; c" = "a\tb; c" := by
    decide +kernel
  ⟨h, hvalue, hsame, (quoteField_eq_self_iff h hvalue).1 hsame⟩

end Interchange.Delimited
