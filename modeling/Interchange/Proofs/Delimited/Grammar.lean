import Interchange.Proofs.Delimited.Scanning
import Mathlib.Data.List.DropRight

/-!
# The grammar of delimited text

What a scan gives is told without a scan. A character stands between quotes when an odd number of
quotes precede it in the whole text. The text is split into lines at the line breaks outside of
quotes, and a line into pieces at the delimiters outside of quotes. A piece is a field once its
quotes and its margins are gone.
-/
namespace Interchange.Delimited

variable {d q : Char}

/-- The characters of a text, each with whether an odd number of quotes precede it. -/
def marked (q : Char) (cs : List Char) : List Piece :=
  cs.mapIdx fun i c => ⟨c, (cs.take i).count q % 2 == 1⟩

/-- A given character outside of quotes. -/
def Piece.isBare (c : Char) (p : Piece) : Bool := !p.quoted && p.char == c

def Piece.isBreak (p : Piece) : Bool := p.isBare '\r' || p.isBare '\n'

/-- The text with one line break for each pair of a carriage return and a line feed. -/
def joinBreaks : List Piece → List Piece
  | [] => []
  | [p] => [p]
  | p :: p' :: ps =>
    if p.isBare '\r' && p'.isBare '\n' then p :: joinBreaks ps else p :: joinBreaks (p' :: ps)

/-- The lines of a text, one more than there are line breaks outside of quotes. -/
def linesOf (q : Char) (cs : List Char) : List (List Piece) :=
  (joinBreaks (marked q cs)).splitOnP Piece.isBreak

/-- A line that holds no quote, no delimiter and nothing but blanks. -/
def isVoid (d q : Char) (line : List Piece) : Bool :=
  line.all fun p => p.char != q && p.char != d && Text.isBlank p.char

/-- What is left of a piece without the quotes that open and close. A quote between quotes with
another one behind it stays, and the other one goes. -/
def unquoted (q : Char) : List Piece → List Piece
  | [] => []
  | p :: ps =>
    if p.char = q ∧ ¬(p.quoted = true ∧ (ps.head?.map Piece.char) = some q) then unquoted q ps
    else p :: unquoted q ps

/-- The text of a field: blanks outside of quotes are trimmed at both ends. -/
def fieldOf (q : Char) (piece : List Piece) : List Char :=
  (((unquoted q piece).dropWhile Piece.isMargin).rdropWhile Piece.isMargin).map Piece.char

def fieldsOf (d q : Char) (line : List Piece) : Fields :=
  (line.splitOnP (Piece.isBare d)).map (fieldOf q)

def recordsIn (d q : Char) (lines : List (List Piece)) : List Fields :=
  (lines.filter (!isVoid d q ·)).map (fieldsOf d q)

/-- The marks of a text that is read from inside or outside of quotes on. -/
def markFrom (q : Char) (inside : Bool) : List Char → List Piece
  | [] => []
  | c :: cs => ⟨c, inside⟩ :: markFrom q (inside ^^ (c == q)) cs

lemma marked_eq_markFrom (q : Char) (cs : List Char) : marked q cs = markFrom q false cs := by
  have counted (n : Nat) :
      (cs.mapIdx fun i c => (⟨c, ((cs.take i).count q + n) % 2 == 1⟩ : Piece)) =
        markFrom q (n % 2 == 1) cs := by
    induction cs generalizing n with
    | nil => rfl
    | cons c cs ih =>
      have hnext : (n % 2 == 1 ^^ (c == q)) = ((n + if c == q then 1 else 0) % 2 == 1) := by
        cases c == q with
        | false => simp
        | true => rcases Nat.mod_two_eq_zero_or_one n with hn | hn <;> simp [Nat.add_mod, hn]
      rw [List.mapIdx_cons, markFrom, hnext, ← ih]
      congr 1
      · simp
      · refine List.mapIdx_eq_mapIdx_iff.2 fun i _ => ?_
        rw [List.take_succ_cons, List.count_cons, Nat.add_assoc,
          Nat.add_comm (if c == q then 1 else 0) n]
  exact counted 0

/-- A line is marked by the quotes in it, once it is known whether it begins between quotes. -/
def IsMarked (q : Char) : Bool → List Piece → Prop
  | _, [] => True
  | inside, p :: ps => p.quoted = inside ∧ IsMarked q (inside ^^ (p.char == q)) ps

lemma isMarked_markFrom (inside : Bool) (cs : List Char) : IsMarked q inside (markFrom q inside cs) := by
  induction cs generalizing inside with
  | nil => trivial
  | cons c cs ih => exact ⟨rfl, ih _⟩

/-- Without a quote in it a line is all of one kind. -/
lemma IsMarked.quoted_eq {inside : Bool} {line : List Piece} (h : IsMarked q inside line)
    (hq : q ∉ line.map Piece.char) : ∀ p ∈ line, p.quoted = inside := by
  induction line with
  | nil => exact List.forall_mem_nil _
  | cons p line ih =>
    rw [List.map_cons, List.mem_cons, not_or] at hq
    have hsame : (inside ^^ (p.char == q)) = inside := by
      rw [beq_false_of_ne (Ne.symm hq.1), Bool.xor_false]
    rw [IsMarked, hsame] at h
    exact List.forall_mem_cons.2 ⟨h.1, ih h.2 hq.2⟩

lemma joinBreaks_cons {p : Piece} (h : p.isBare '\r' = false) (ps : List Piece) :
    joinBreaks (p :: ps) = p :: joinBreaks ps := by
  cases ps with
  | nil => rfl
  | cons p' ps => simp [joinBreaks, h]

/-- The lines of the text that is left when a scan stands inside or outside of quotes. -/
def linesFrom (q : Char) (inside : Bool) (cs : List Char) : List (List Piece) :=
  (joinBreaks (markFrom q inside cs)).splitOnP Piece.isBreak

lemma linesOf_eq_linesFrom (q : Char) (cs : List Char) : linesOf q cs = linesFrom q false cs := by
  rw [linesOf, marked_eq_markFrom, linesFrom]

lemma linesFrom_ne_nil (inside : Bool) (cs : List Char) : linesFrom q inside cs ≠ [] :=
  List.splitOnP_ne_nil _ _

lemma linesFrom_nil (inside : Bool) : linesFrom q inside [] = [[]] := rfl

/-- A character that breaks no line belongs to the first one. -/
lemma linesFrom_cons {inside : Bool} {c : Char} (h : inside = true ∨ c ≠ '\r' ∧ c ≠ '\n')
    (cs : List Char) : linesFrom q inside (c :: cs) =
      (linesFrom q (inside ^^ (c == q)) cs).modifyHead (⟨c, inside⟩ :: ·) := by
  have hbare : Piece.isBare '\r' ⟨c, inside⟩ = false ∧ Piece.isBare '\n' ⟨c, inside⟩ = false := by
    rcases h with rfl | ⟨hr, hn⟩
    · exact ⟨rfl, rfl⟩
    · simp [Piece.isBare, hr, hn]
  have hbreak : Piece.isBreak ⟨c, inside⟩ = false := by rw [Piece.isBreak, hbare.1, hbare.2]; rfl
  rw [linesFrom, markFrom, joinBreaks_cons hbare.1, List.splitOnP_cons_eq_if_modifyHead, hbreak,
    if_neg Bool.false_ne_true]
  rfl

lemma beq_quote_of_break (h : ProperMarks d q) {c : Char} (hc : c = '\r' ∨ c = '\n') :
    (c == q) = false := by
  rcases hc with rfl | rfl
  · exact beq_false_of_ne (Ne.symm h.quote_ne_cr)
  · exact beq_false_of_ne (Ne.symm h.quote_ne_lf)

lemma linesFrom_break (h : ProperMarks d q) {c : Char} (hc : c = '\r' ∨ c = '\n')
    (cs : List Char) :
    linesFrom q false (c :: cs) = [] :: linesFrom q false (afterBreak c cs) := by
  have hne := beq_quote_of_break h hc
  have hbreak : Piece.isBreak ⟨c, false⟩ = true := by
    rcases hc with rfl | rfl <;> rfl
  have hjoined : joinBreaks (markFrom q false (c :: cs)) =
      ⟨c, false⟩ :: joinBreaks (markFrom q false (afterBreak c cs)) := by
    rw [markFrom, hne]
    rcases hc with rfl | rfl
    · cases cs with
      | nil => rfl
      | cons c' cs =>
        by_cases hlf : c' = '\n'
        · subst hlf
          rw [markFrom, beq_quote_of_break h (.inr rfl)]
          simp [joinBreaks, Piece.isBare, afterBreak]
        · have hafter : afterBreak '\r' (c' :: cs) = c' :: cs := by
            unfold afterBreak
            split
            · next heq => exact absurd (List.cons.inj heq).1 hlf
            · rfl
          rw [hafter]
          simp [markFrom, joinBreaks, Piece.isBare, hlf]
    · have hafter : afterBreak '\n' cs = cs := by
        unfold afterBreak
        split <;> simp
      rw [hafter, joinBreaks_cons (by rfl)]
      rfl
  rw [linesFrom, hjoined, List.splitOnP_cons_eq_if_modifyHead, hbreak, if_pos rfl]
  rfl

/-- The first line begins with what the text begins with, if with anything. -/
lemma head?_of_linesFrom (h : ProperMarks d q) {inside : Bool} {cs : List Char} {line : List Piece}
    {lines : List (List Piece)} (hlines : linesFrom q inside cs = line :: lines) :
    line = [] ∨ line.head?.map Piece.char = cs.head? := by
  cases cs with
  | nil =>
    rw [linesFrom_nil] at hlines
    exact .inl (List.cons.inj hlines).1.symm
  | cons c cs =>
    by_cases hc : inside = true ∨ c ≠ '\r' ∧ c ≠ '\n'
    · obtain ⟨first, others, hrest⟩ := List.exists_cons_of_ne_nil
        (linesFrom_ne_nil (q := q) (inside ^^ (c == q)) cs)
      rw [linesFrom_cons hc, hrest] at hlines
      obtain ⟨rfl, -⟩ := List.cons.inj hlines
      exact .inr rfl
    · obtain ⟨hout, hbreak⟩ : inside = false ∧ (c = '\r' ∨ c = '\n') := by
        simp only [not_or, Bool.not_eq_true] at hc
        exact ⟨hc.1, by tauto⟩
      rw [hout, linesFrom_break h hbreak] at hlines
      exact .inl (List.cons.inj hlines).1.symm

/-- A line break stands outside of quotes and is no quote. -/
lemma of_isBreak (h : ProperMarks d q) {p : Piece} (hp : p.isBreak = true) :
    p.quoted = false ∧ (p.char == q) = false := by
  simp only [Piece.isBreak, Piece.isBare, Bool.or_eq_true, Bool.and_eq_true, beq_iff_eq,
    Bool.not_eq_true'] at hp
  rcases hp with ⟨hout, hc⟩ | ⟨hout, hc⟩
  · exact ⟨hout, beq_quote_of_break h (.inl hc)⟩
  · exact ⟨hout, beq_quote_of_break h (.inr hc)⟩

lemma IsMarked.joinBreaks (h : ProperMarks d q) {inside : Bool} {ps : List Piece}
    (hps : IsMarked q inside ps) : IsMarked q inside (joinBreaks ps) := by
  fun_induction Delimited.joinBreaks ps generalizing inside with
  | case1 => trivial
  | case2 p => exact hps
  | case3 p p' ps hbreak ih =>
    obtain ⟨hcr, hlf⟩ := Bool.and_eq_true_iff.1 hbreak
    obtain ⟨-, hquote⟩ := of_isBreak h (p := p) (by simp [Piece.isBreak, hcr])
    obtain ⟨-, hnext⟩ := of_isBreak h (p := p') (by simp [Piece.isBreak, hlf])
    obtain ⟨hp, -, hrest⟩ := hps
    rw [hnext, Bool.xor_false] at hrest
    exact ⟨hp, ih hrest⟩
  | case4 p p' ps hbreak ih => exact ⟨hps.1, ih hps.2⟩

/-- Every line but the first begins outside of quotes. -/
lemma IsMarked.splitOnP (h : ProperMarks d q) {inside : Bool} {ps : List Piece}
    (hps : IsMarked q inside ps) : ∃ line lines, ps.splitOnP Piece.isBreak = line :: lines ∧
      IsMarked q inside line ∧ ∀ later ∈ lines, IsMarked q false later := by
  induction ps generalizing inside with
  | nil => exact ⟨[], [], rfl, trivial, List.forall_mem_nil _⟩
  | cons p ps ih =>
    obtain ⟨line, lines, hsplit, hline, hlines⟩ := ih hps.2
    rw [List.splitOnP_cons_eq_if_modifyHead, hsplit]
    by_cases hbreak : p.isBreak = true
    · obtain ⟨hout, hquote⟩ := of_isBreak h hbreak
      have hinside : inside = false := hps.1.symm.trans hout
      rw [hquote, hinside] at hline
      rw [if_pos hbreak]
      exact ⟨[], line :: lines, rfl, trivial, List.forall_mem_cons.2 ⟨hline, hlines⟩⟩
    · rw [if_neg hbreak]
      exact ⟨p :: line, lines, rfl, ⟨hps.1, hline⟩, hlines⟩

/-- Every line of a text begins outside of quotes. -/
lemma isMarked_of_mem_linesOf (h : ProperMarks d q) (cs : List Char) :
    ∀ line ∈ linesOf q cs, IsMarked q false line := by
  obtain ⟨line, lines, hsplit, hline, hlines⟩ :=
    ((isMarked_markFrom (q := q) false cs).joinBreaks h).splitOnP h
  rw [linesOf, marked_eq_markFrom, hsplit]
  exact List.forall_mem_cons.2 ⟨hline, hlines⟩

lemma isMarked_of_linesFrom (h : ProperMarks d q) {cs : List Char} {line : List Piece}
    {lines : List (List Piece)} (hlines : linesFrom q false cs = line :: lines) :
    IsMarked q false line := by
  refine isMarked_of_mem_linesOf h cs line ?_
  rw [linesOf_eq_linesFrom, hlines]
  exact List.mem_cons_self

lemma unquoted_cons_of_keeps {p : Piece} {ps : List Piece}
    (h : p.char = q → p.quoted = true ∧ ps.head?.map Piece.char = some q) :
    unquoted q (p :: ps) = p :: unquoted q ps := by
  rw [unquoted, if_neg]
  rintro ⟨hq, hdrop⟩
  exact hdrop (h hq)

lemma unquoted_cons_of_drops {p : Piece} {ps : List Piece} (hq : p.char = q)
    (h : p.quoted = true → ps.head?.map Piece.char ≠ some q) :
    unquoted q (p :: ps) = unquoted q ps := by
  rw [unquoted, if_pos]
  exact ⟨hq, fun hkept => h hkept.1 hkept.2⟩

/-- A field is finished from its end, and its front is trimmed last. -/
lemma finishField_reverse (ps : List Piece) : finishField ps.reverse =
    ((ps.dropWhile Piece.isMargin).rdropWhile Piece.isMargin).map Piece.char := by
  rw [finishField, Text.dropWhile_reverse_comm]
  rfl

/-- The first piece of a line begins with a quote just if the line does. -/
lemma head?_splitOnP (h : ProperMarks d q) {line piece : List Piece} {pieces : List (List Piece)}
    (hsplit : line.splitOnP (Piece.isBare d) = piece :: pieces) :
    piece.head?.map Piece.char = some q ↔ line.head?.map Piece.char = some q := by
  cases line with
  | nil =>
    obtain ⟨rfl, -⟩ := List.cons.inj hsplit
    rfl
  | cons p line =>
    rw [List.splitOnP_cons_eq_if_modifyHead] at hsplit
    by_cases hd : p.isBare d = true
    · rw [if_pos hd] at hsplit
      obtain ⟨rfl, -⟩ := List.cons.inj hsplit
      have hchar : p.char = d := by
        simp only [Piece.isBare, Bool.and_eq_true, beq_iff_eq] at hd
        exact hd.2
      simp [hchar, h.distinct]
    · obtain ⟨first, others, hrest⟩ := List.exists_cons_of_ne_nil
        (List.splitOnP_ne_nil (Piece.isBare d) line)
      rw [if_neg hd, hrest] at hsplit
      obtain ⟨rfl, -⟩ := List.cons.inj hsplit
      rfl

namespace Position

/-- The fields of the record when the rest of its line is the one given. -/
def fieldsWith (d q : Char) (pos : Position) (line : List Piece) : Fields :=
  match line.splitOnP (Piece.isBare d) with
  | [] => pos.fields
  | piece :: pieces =>
    pos.record.reverse ++ finishField ((unquoted q piece).reverse ++ pos.field) ::
      pieces.map (fieldOf q)

variable {pos : Position}

lemma fieldsWith_nil : pos.fieldsWith d q [] = pos.fields := by
  simp [fieldsWith, unquoted, fields]

lemma fieldsWith_start (line : List Piece) : start.fieldsWith d q line = fieldsOf d q line := by
  rw [fieldsWith, fieldsOf]
  cases hsplit : line.splitOnP (Piece.isBare d) with
  | nil => exact absurd hsplit (List.splitOnP_ne_nil _ _)
  | cons piece pieces =>
    simp [start, finishField_reverse, fieldOf]

lemma fieldsWith_delimiter (line : List Piece) :
    pos.fieldsWith d q (⟨d, false⟩ :: line) = pos.endField.fieldsWith d q line := by
  have hbare : Piece.isBare d ⟨d, false⟩ = true := by simp [Piece.isBare]
  rw [fieldsWith, List.splitOnP_cons_eq_if_modifyHead, if_pos hbare, fieldsWith]
  cases hsplit : line.splitOnP (Piece.isBare d) with
  | nil => exact absurd hsplit (List.splitOnP_ne_nil _ _)
  | cons piece pieces =>
    simp [endField, unquoted, finishField_reverse, fieldOf]

/-- A character that a field keeps is pushed. -/
lemma fieldsWith_push (h : ProperMarks d q) {p : Piece} {line : List Piece}
    (hbare : p.isBare d = false)
    (hkeeps : p.char = q → p.quoted = true ∧ line.head?.map Piece.char = some q) :
    pos.fieldsWith d q (p :: line) = (pos.push p.char p.quoted).fieldsWith d q line := by
  rw [fieldsWith, List.splitOnP_cons_eq_if_modifyHead, hbare, fieldsWith]
  cases hsplit : line.splitOnP (Piece.isBare d) with
  | nil => exact absurd hsplit (List.splitOnP_ne_nil _ _)
  | cons piece pieces =>
    have hunquoted : unquoted q (p :: piece) = p :: unquoted q piece :=
      unquoted_cons_of_keeps fun hq => (hkeeps hq).imp_right (head?_splitOnP h hsplit).2
    simp [hunquoted, push]

lemma fieldsWith_quote (h : ProperMarks d q) {p : Piece} {line : List Piece} (hq : p.char = q)
    (hdrops : p.quoted = true → line.head?.map Piece.char ≠ some q) :
    pos.fieldsWith d q (p :: line) = pos.fieldsWith d q line := by
  have hbare : p.isBare d = false := by simp [Piece.isBare, hq, Ne.symm h.distinct]
  rw [fieldsWith, List.splitOnP_cons_eq_if_modifyHead, hbare, fieldsWith]
  cases hsplit : line.splitOnP (Piece.isBare d) with
  | nil => exact absurd hsplit (List.splitOnP_ne_nil _ _)
  | cons piece pieces =>
    have hunquoted : unquoted q (p :: piece) = unquoted q piece :=
      unquoted_cons_of_drops hq fun hin => mt (head?_splitOnP h hsplit).1 (hdrops hin)
    simp [hunquoted]

end Position

lemma length_splitOnP {α : Type} (p : α → Bool) (l : List α) :
    (l.splitOnP p).length = l.countP p + 1 := by
  induction l with
  | nil => rfl
  | cons x l ih =>
    rw [List.splitOnP_cons_eq_if_modifyHead, List.countP_cons]
    split
    · rw [List.length_cons, ih]
    · rw [List.length_modifyHead, ih, Nat.add_zero]

/-- A line without a delimiter is one field. -/
lemma fieldsOf_eq_singleton_iff {line : List Piece} {field : List Char} :
    fieldsOf d q line = [field] ↔
      (∀ p ∈ line, p.isBare d = false) ∧ fieldOf q line = field := by
  constructor
  · intro hfields
    have hlength := congrArg List.length hfields
    rw [fieldsOf, List.length_map, length_splitOnP] at hlength
    have hbare : ∀ p ∈ line, p.isBare d = false := by
      simpa using List.countP_eq_zero.1 (Nat.succ.inj hlength)
    rw [fieldsOf, List.splitOnP_eq_singleton hbare, List.map_singleton] at hfields
    exact ⟨hbare, List.singleton_inj.1 hfields⟩
  · rintro ⟨hbare, rfl⟩
    rw [fieldsOf, List.splitOnP_eq_singleton hbare, List.map_singleton]

lemma unquoted_of_notMem {ps : List Piece} (hq : q ∉ ps.map Piece.char) : unquoted q ps = ps := by
  induction ps with
  | nil => rfl
  | cons p ps ih =>
    rw [List.map_cons, List.mem_cons, not_or] at hq
    rw [unquoted_cons_of_keeps fun hp => absurd hp.symm hq.1, ih hq.2]

/-- Outside of quotes a field is empty when it is blank. -/
lemma fieldOf_eq_nil_iff {piece : List Piece} (hq : q ∉ piece.map Piece.char)
    (hout : ∀ p ∈ piece, p.quoted = false) :
    fieldOf q piece = [] ↔ ∀ p ∈ piece, Text.isBlank p.char = true := by
  have hmargin : (∀ p ∈ piece, p.isMargin = true) ↔ ∀ p ∈ piece, Text.isBlank p.char = true :=
    forall₂_congr fun p hp => by simp [Piece.isMargin, hout p hp]
  rw [fieldOf, unquoted_of_notMem hq, List.map_eq_nil_iff, List.rdropWhile_eq_nil_iff,
    ← List.dropWhile_eq_nil_iff, List.dropWhile_idempotent, List.dropWhile_eq_nil_iff, hmargin]

/-- A line is left out just if it gives one empty field and has no quote. -/
lemma isVoid_iff {line : List Piece} (hline : IsMarked q false line) :
    isVoid d q line = true ↔ fieldsOf d q line = [[]] ∧ q ∉ line.map Piece.char := by
  by_cases hq : q ∈ line.map Piece.char
  · obtain ⟨p, hp, hchar⟩ := List.mem_map.1 hq
    have hkept : isVoid d q line = false := List.all_eq_false.2 ⟨p, hp, by simp [hchar]⟩
    simp [hkept, hq]
  · have hout := hline.quoted_eq hq
    have hchars : ∀ p ∈ line, p.char ≠ q := fun p hp hpq => hq (List.mem_map.2 ⟨p, hp, hpq⟩)
    have hbare : ∀ p ∈ line, p.isBare d = (p.char == d) := fun p hp => by
      rw [Piece.isBare, hout p hp]
      rfl
    have hvoid : isVoid d q line = true ↔
        (∀ p ∈ line, p.isBare d = false) ∧ ∀ p ∈ line, Text.isBlank p.char = true := by
      rw [isVoid, List.all_eq_true, ← forall₂_and]
      exact forall₂_congr fun p hp => by simp [hchars p hp, hbare p hp]
    rw [hvoid, and_iff_left hq, fieldsOf_eq_singleton_iff, fieldOf_eq_nil_iff hq hout]

/-- The record of a line is kept unless the line is void. -/
lemma push_fieldsOf {line : List Piece} (hline : IsMarked q false line)
    (lines : List (List Piece)) (unterminated : Bool) :
    Scanned.push (fieldsOf d q line) (line.any (·.char == q)) ⟨recordsIn d q lines, unterminated⟩ =
      ⟨recordsIn d q (line :: lines), unterminated⟩ := by
  have hany : line.any (·.char == q) = true ↔ q ∈ line.map Piece.char := by simp
  rw [Scanned.push, recordsIn, recordsIn, List.filter_cons]
  by_cases hvoid : isVoid d q line = true
  · obtain ⟨hfields, hq⟩ := (isVoid_iff hline).1 hvoid
    have hdropped : fieldsOf d q line = [[]] ∧ (!line.any (·.char == q)) = true :=
      ⟨hfields, by simpa using mt hany.1 hq⟩
    rw [if_pos hdropped, if_neg (by simp [hvoid])]
  · have hkept : ¬(fieldsOf d q line = [[]] ∧ (!line.any (·.char == q)) = true) := by
      rw [Bool.not_eq_true', ← Bool.not_eq_true, hany, ← isVoid_iff hline]
      exact hvoid
    rw [if_neg hkept, if_pos (by simp [hvoid]), List.map_cons]

/-- Whether a quote is still open behind a text that is read from outside of quotes on. -/
def endsInside (q : Char) (cs : List Char) : Bool := cs.count q % 2 == 1

lemma endsInside_cons (c : Char) (cs : List Char) :
    endsInside q (c :: cs) = ((c == q) ^^ endsInside q cs) := by
  rw [endsInside, endsInside, List.count_cons]
  cases c == q with
  | false => simp
  | true => rcases Nat.mod_two_eq_zero_or_one (cs.count q) with h | h <;> simp [Nat.add_mod, h]

lemma endsInside_afterBreak (h : ProperMarks d q) (c : Char) (cs : List Char) :
    endsInside q (afterBreak c cs) = endsInside q cs := by
  unfold afterBreak
  split
  · next rest =>
    split
    · rw [endsInside_cons, beq_false_of_ne (Ne.symm h.quote_ne_lf), Bool.false_xor]
    · rfl
  · rfl

/-- The scan of a text from a position on gives what the lines of the text give. -/
def FollowsLines (d q : Char) (pos : Position) (cs : List Char) : Prop :=
  ∀ line lines, linesFrom q pos.inside cs = line :: lines →
    scanFrom (.ofChars d q) true pos cs =
      .push (pos.fieldsWith d q line) (pos.sawQuote || line.any (·.char == q))
        ⟨recordsIn d q lines, pos.inside ^^ endsInside q cs⟩

lemma exists_of_linesFrom_cons {inside : Bool} {c : Char} {cs : List Char} {line : List Piece}
    {lines : List (List Piece)} (hc : inside = true ∨ c ≠ '\r' ∧ c ≠ '\n')
    (hlines : linesFrom q inside (c :: cs) = line :: lines) :
    ∃ rest, line = ⟨c, inside⟩ :: rest ∧
      linesFrom q (inside ^^ (c == q)) cs = rest :: lines := by
  obtain ⟨rest, others, hrest⟩ := List.exists_cons_of_ne_nil
    (linesFrom_ne_nil (q := q) (inside ^^ (c == q)) cs)
  rw [linesFrom_cons hc, hrest] at hlines
  obtain ⟨rfl, rfl⟩ := List.cons.inj hlines
  exact ⟨rest, rfl, hrest⟩

namespace FollowsLines

variable {pos next : Position} {c : Char} {cs : List Char}

lemma nil : FollowsLines d q pos [] := by
  intro line lines hlines
  obtain ⟨rfl, rfl⟩ : [] = line ∧ [] = lines := List.cons.inj hlines
  rw [scanFrom_nil, Position.fieldsWith_nil]
  by_cases hstart : pos.isStart = true
  · obtain ⟨⟨hfield, hrecord⟩, hsaw⟩ :
        (pos.field = [] ∧ pos.record = []) ∧ pos.sawQuote = false := by
      simpa [Position.isStart] using hstart
    simp [hstart, Position.fields, hfield, hrecord, hsaw, finishField, Scanned.push, recordsIn,
      endsInside]
  · simp [hstart, recordsIn, endsInside]

/-- A character that breaks no line. -/
lemma cons (hc : pos.inside = true ∨ c ≠ '\r' ∧ c ≠ '\n')
    (hscan : scanFrom (.ofChars d q) true pos (c :: cs) = scanFrom (.ofChars d q) true next cs)
    (hinside : next.inside = (pos.inside ^^ (c == q)))
    (hsaw : next.sawQuote = (pos.sawQuote || c == q))
    (hfields : ∀ line lines, linesFrom q next.inside cs = line :: lines →
      pos.fieldsWith d q (⟨c, pos.inside⟩ :: line) = next.fieldsWith d q line)
    (ih : FollowsLines d q next cs) : FollowsLines d q pos (c :: cs) := by
  intro line lines hlines
  obtain ⟨rest, rfl, hrest⟩ := exists_of_linesFrom_cons hc hlines
  rw [← hinside] at hrest
  rw [hscan, ih rest lines hrest, hfields rest lines hrest, hsaw, hinside, List.any_cons,
    endsInside_cons, Bool.or_assoc, Bool.xor_assoc]

/-- Two quotes between quotes. -/
lemma doubled (h : ProperMarks d q) (hin : pos.inside = true) (hsaw : pos.sawQuote = true)
    (ih : FollowsLines d q (pos.push q true) cs) : FollowsLines d q pos (q :: q :: cs) := by
  intro line lines hlines
  rw [hin] at hlines
  obtain ⟨second, rfl, hsecond⟩ := exists_of_linesFrom_cons (.inl rfl) hlines
  rw [beq_self_eq_true, Bool.xor_self] at hsecond
  obtain ⟨rest, rfl, hrest⟩ :=
    exists_of_linesFrom_cons (.inr ⟨h.quote_ne_cr, h.quote_ne_lf⟩) hsecond
  rw [beq_self_eq_true, Bool.false_xor] at hrest
  have hfields : pos.fieldsWith d q (⟨q, true⟩ :: ⟨q, false⟩ :: rest) =
      (pos.push q true).fieldsWith d q rest := by
    rw [Position.fieldsWith_push h (by rfl) fun _ => ⟨rfl, rfl⟩,
      Position.fieldsWith_quote h rfl (by simp)]
  rw [scanFrom_doubled hin, ih rest lines (by rw [← hrest, ← hin]; rfl), hfields, endsInside_cons,
    endsInside_cons]
  simp [Position.push, hsaw]

/-- A line break outside of quotes. -/
lemma lineBreak (h : ProperMarks d q) (hout : pos.inside = false) (hc : c = '\r' ∨ c = '\n')
    (ih : FollowsLines d q .start (afterBreak c cs)) : FollowsLines d q pos (c :: cs) := by
  intro line lines hlines
  rw [hout, linesFrom_break h hc] at hlines
  obtain ⟨rfl, rfl⟩ := List.cons.inj hlines
  obtain ⟨first, others, hfirst⟩ := List.exists_cons_of_ne_nil
    (linesFrom_ne_nil (q := q) false (afterBreak c cs))
  have hmarked := isMarked_of_linesFrom h hfirst
  have hkept : Scanned.push (fieldsOf d q first) (Position.start.sawQuote || first.any (·.char == q))
      ⟨recordsIn d q others, Position.start.inside ^^ endsInside q cs⟩ =
      ⟨recordsIn d q (first :: others), endsInside q cs⟩ := by
    rw [← push_fieldsOf hmarked others]
    simp [Position.start]
  have hrest := ih first others hfirst
  rw [Position.fieldsWith_start, endsInside_afterBreak h] at hrest
  rw [scanFrom_break h hout hc, hrest, hkept, hfirst, Position.fieldsWith_nil, endsInside_cons,
    beq_quote_of_break h hc, hout, List.any_nil, Bool.or_false, Bool.false_xor, Bool.false_xor]

end FollowsLines

/-- Where a quote is open, one was seen. -/
theorem followsLines (h : ProperMarks d q) {pos : Position}
    (hsaw : pos.inside = true → pos.sawQuote = true) (cs : List Char) :
    FollowsLines d q pos cs := by
  induction hlength : cs.length using Nat.strong_induction_on generalizing pos cs with
  | _ n ih =>
  have shorter {next : Position} {rest : List Char} (hrest : rest.length < n)
      (hnext : next.inside = true → next.sawQuote = true) : FollowsLines d q next rest :=
    ih rest.length hrest hnext rest rfl
  match cs with
  | [] => exact .nil
  | c :: cs =>
    have hcs : cs.length < n := by
      rw [← hlength, List.length_cons]
      omega
    cases hin : pos.inside with
    | true =>
      by_cases hq : c = q
      · subst hq
        by_cases hhead : cs.head? = some c
        · obtain ⟨rest, rfl⟩ := List.head?_eq_some_iff.1 hhead
          have hrest : rest.length < n := by
            rw [List.length_cons] at hcs
            omega
          exact .doubled h hin (hsaw hin) (shorter hrest hsaw)
        · refine .cons (.inl hin) (scanFrom_close hin hhead) (by simp [hin]) (by simp [hsaw hin])
            (fun line lines hlines => ?_) (shorter hcs (by simp))
          have hdrops : line.head?.map Piece.char ≠ some c := by
            rcases head?_of_linesFrom h hlines with rfl | hline
            · simp
            · rwa [hline]
          exact Position.fieldsWith_quote h rfl fun _ => hdrops
      · refine .cons (.inl hin) (scanFrom_quoted hin hq cs) ?_ ?_ (fun line _ _ => ?_)
          (shorter hcs hsaw)
        · rw [beq_false_of_ne hq, Bool.xor_false]
          rfl
        · rw [beq_false_of_ne hq, Bool.or_false]
          rfl
        · rw [Position.fieldsWith_push h (by rw [hin]; rfl) fun heq => absurd heq hq, hin]
    | false =>
      by_cases hq : c = q
      · subst hq
        exact .cons (.inr ⟨h.quote_ne_cr, h.quote_ne_lf⟩) (scanFrom_open hin cs) (by simp [hin])
          (by simp) (fun line _ _ => Position.fieldsWith_quote h rfl (by simp [hin]))
          (shorter hcs (by simp))
      · have hinside : false = (pos.inside ^^ (c == q)) := by simp [hin, hq]
        have hseen : pos.sawQuote = (pos.sawQuote || c == q) := by simp [hq]
        by_cases hd : c = d
        · subst hd
          refine .cons (.inr ⟨h.delimiter_ne_cr, h.delimiter_ne_lf⟩)
            (scanFrom_delimiter h.distinct hin cs) (hin.trans hinside) hseen (fun line _ _ => ?_)
            (shorter hcs hsaw)
          rw [hin, Position.fieldsWith_delimiter]
        · by_cases hbreak : c = '\r' ∨ c = '\n'
          · have hrest : (afterBreak c cs).length < n := by
              have := afterBreak_length_lt c cs
              rw [List.length_cons] at hlength
              omega
            exact .lineBreak h hin hbreak (shorter hrest (by simp [Position.start]))
          · rw [not_or] at hbreak
            refine .cons (.inr hbreak) (scanFrom_plain hin hd hq hbreak.1 hbreak.2 cs)
              (hin.trans hinside) hseen (fun line _ _ => ?_) (shorter hcs hsaw)
            rw [hin, Position.fieldsWith_push h (by simp [Piece.isBare, hd]) fun heq => absurd heq hq]

/-- A whole text gives the records of its lines. -/
theorem scanFrom_start (h : ProperMarks d q) (cs : List Char) :
    scanFrom (.ofChars d q) true .start cs = ⟨recordsIn d q (linesOf q cs), endsInside q cs⟩ := by
  obtain ⟨line, lines, hlines⟩ := List.exists_cons_of_ne_nil (linesFrom_ne_nil (q := q) false cs)
  have hmarked := isMarked_of_linesFrom h hlines
  rw [followsLines h (by simp [Position.start]) cs line lines hlines, Position.fieldsWith_start,
    linesOf_eq_linesFrom, hlines, ← push_fieldsOf hmarked lines]
  simp [Position.start]

/-- Scanning meets the grammar. -/
theorem scanRecords_eq_grammar (h : ProperMarks d q) (text : String) :
    scanRecords (.ofChars d q) text =
        ⟨(recordsIn d q (linesOf q text.toList)).map (·.map String.ofList),
          decide (text.toList.count q % 2 = 1)⟩ ∧
      ∀ line : List Piece, (fieldsOf d q line).length = line.countP (Piece.isBare d) + 1 := by
  constructor
  · rw [scanRecords, scanFrom_start h, endsInside]
    rfl
  · intro line
    rw [fieldsOf, List.length_map, length_splitOnP]

/-- A quote that opens within a field, a doubled one, a line that is void and a quote that is never
closed. -/
theorem scanRecords_eq_grammar_unterminated :
    ProperMarks ',' '"' ∧
      scanRecords (.ofChars ',' '"') "a \"b,\"\"\" , c\r\n \r\n\"x\ny" =
        ⟨[["a b,\"", "c"], ["x\ny"]], true⟩ :=
  have h : ProperMarks ',' '"' := by constructor <;> decide
  ⟨h, (scanRecords_eq_grammar h _).1.trans (by decide +kernel)⟩

end Interchange.Delimited
