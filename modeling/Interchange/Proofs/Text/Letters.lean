import Interchange.Text.Lines
import Mathlib.Data.List.DropRight
import Mathlib.Data.List.Forall2
import Mathlib.Tactic

/-!
# Letters that are kept

The letters of a text are its characters that are not blank. A text is kept in another when its
letters stand there in their order, whatever stands between them. Trimming, splitting into lines and
joining with something between all keep a text. Blanks are trimmed from both ends, in either order,
and a text that is trimmed already has no blank at an end.
-/
namespace Interchange.Text

/-- Elements dropped from both ends, the front first or the back first. -/
lemma dropWhile_reverse_comm {α : Type} (p : α → Bool) (l : List α) :
    ((l.reverse.dropWhile p).reverse).dropWhile p = ((l.dropWhile p).reverse.dropWhile p).reverse := by
  induction l with
  | nil => rfl
  | cons x xs ih =>
    rw [List.reverse_cons, List.dropWhile_append]
    cases hx : p x with
    | true =>
      rw [List.dropWhile_cons_of_pos (l := xs) hx, ← ih]
      by_cases hxs : (xs.reverse.dropWhile p).isEmpty = true
      · rw [if_pos hxs, List.dropWhile_cons_of_pos hx, List.isEmpty_iff.1 hxs]
        rfl
      · rw [if_neg hxs, List.reverse_append, List.reverse_singleton, List.singleton_append,
          List.dropWhile_cons_of_pos hx]
    | false =>
      have kept : ¬p x = true := by simp [hx]
      rw [List.dropWhile_cons_of_neg (l := xs) kept, List.reverse_cons, List.dropWhile_append]
      by_cases hxs : (xs.reverse.dropWhile p).isEmpty = true
      · rw [if_pos hxs, List.dropWhile_cons_of_neg kept, List.reverse_singleton,
          List.dropWhile_cons_of_neg kept]
      · rw [if_neg hxs, List.reverse_append, List.reverse_singleton, List.singleton_append,
          List.dropWhile_cons_of_neg kept]

theorem stripStart_stripEnd (cs : List Char) : stripStart (stripEnd cs) = strip cs :=
  dropWhile_reverse_comm isBlank cs

lemma stripEnd_append (cs ds : List Char) : stripEnd (cs ++ ds) =
    if (stripEnd ds).isEmpty then stripEnd cs else cs ++ stripEnd ds := by
  rw [stripEnd, List.reverse_append, List.dropWhile_append, stripEnd, List.isEmpty_reverse]
  split
  · rfl
  · rw [List.reverse_append, List.reverse_reverse]

lemma stripEnd_of_last {cs : List Char} (h : ∀ c ∈ cs.getLast?, isBlank c = false) :
    stripEnd cs = cs := by
  refine List.rdropWhile_eq_self_iff.2 fun hne => ?_
  rw [h _ (List.getLast?_eq_some_getLast hne)]
  decide

/-- What stands before a character that is not blank is not trimmed. -/
lemma stripEnd_append_of_last {cs : List Char} (h : ∀ c ∈ cs.getLast?, isBlank c = false)
    (ds : List Char) : stripEnd (cs ++ ds) = cs ++ stripEnd ds := by
  rw [stripEnd_append, stripEnd_of_last h]
  split
  · next hempty => rw [List.isEmpty_iff.1 hempty, List.append_nil]
  · rfl

lemma stripEnd_append_of_blank {ds : List Char} (h : ∀ c ∈ ds, isBlank c = true)
    (cs : List Char) : stripEnd (cs ++ ds) = stripEnd cs := by
  have hnone : stripEnd ds = [] := List.rdropWhile_eq_nil_iff.2 h
  rw [stripEnd_append, hnone, List.isEmpty_nil, if_pos rfl]

lemma stripEnd_letter_cons {c : Char} (hc : isBlank c = false) (cs : List Char) :
    stripEnd (c :: cs) = c :: stripEnd cs := by
  have hlast : ∀ d ∈ [c].getLast?, isBlank d = false := by simpa using hc
  exact stripEnd_append_of_last hlast cs

lemma stripEnd_space_cons (cs : List Char) : stripEnd (' ' :: cs) =
    if (stripEnd cs).isEmpty then [] else ' ' :: stripEnd cs :=
  stripEnd_append [' '] cs

lemma strip_letter_cons {c : Char} (hc : isBlank c = false) (cs : List Char) :
    strip (c :: cs) = c :: stripEnd cs := by
  rw [strip, stripStart, List.dropWhile_cons_of_neg (by simp [hc]), stripEnd_letter_cons hc]

lemma strip_blank_cons {c : Char} (hc : isBlank c = true) (cs : List Char) :
    strip (c :: cs) = strip cs := by
  rw [strip, stripStart, List.dropWhile_cons_of_pos hc]
  rfl

/-- What is trimmed is blank. -/
lemma exists_stripEnd_append (cs : List Char) :
    ∃ trimmed, (∀ c ∈ trimmed, isBlank c = true) ∧ stripEnd cs ++ trimmed = cs := by
  refine ⟨(cs.reverse.takeWhile isBlank).reverse, fun c hc => ?_, ?_⟩
  · exact List.mem_takeWhile_imp (List.mem_reverse.1 hc)
  · rw [stripEnd, ← List.reverse_append, List.takeWhile_append_dropWhile, List.reverse_reverse]

lemma mem_of_mem_stripEnd {c : Char} {cs : List Char} (h : c ∈ stripEnd cs) : c ∈ cs :=
  (List.rdropWhile_prefix isBlank cs).subset h

def letters (cs : List Char) : List Char := cs.filter (!isBlank ·)

@[simp] lemma letters_nil : letters [] = [] := rfl

@[simp] lemma letters_append (cs ds : List Char) : letters (cs ++ ds) = letters cs ++ letters ds :=
  List.filter_append ..

lemma letters_flatMap {α : Type} (f : α → List Char) (xs : List α) :
    letters (xs.flatMap f) = xs.flatMap fun x => letters (f x) :=
  List.filter_flatMap

@[simp] lemma letters_letters (cs : List Char) : letters (letters cs) = letters cs := by
  simp [letters]

lemma letters_sublist (cs : List Char) : (letters cs).Sublist cs := List.filter_sublist

lemma letters_eq_nil_iff {cs : List Char} : letters cs = [] ↔ isBlankLine cs = true := by
  simp [letters, isBlankLine]

@[simp] lemma letters_stripEnd (cs : List Char) : letters (stripEnd cs) = letters cs := by
  have hends : stripEnd cs ++ cs.rtakeWhile isBlank = cs := List.rdropWhile_append_rtakeWhile
  have hblank : letters (cs.rtakeWhile isBlank) = [] :=
    letters_eq_nil_iff.2 (List.all_eq_true.2 fun c hc => List.mem_rtakeWhile_imp hc)
  calc letters (stripEnd cs) = letters (stripEnd cs ++ cs.rtakeWhile isBlank) := by
        rw [letters_append, hblank, List.append_nil]
    _ = letters cs := by rw [hends]

/-- What is put between pieces and blank adds no letters. -/
lemma letters_intercalate {separator : List Char} (h : letters separator = [])
    (pieces : List (List Char)) :
    letters (List.intercalate separator pieces) = letters pieces.flatten := by
  induction pieces with
  | nil => rfl
  | cons piece pieces ih =>
    cases pieces with
    | nil => simp
    | cons next pieces =>
      rw [List.intercalate_cons_cons, List.flatten_cons, letters_append, letters_append,
        letters_append, h, List.append_nil, ih]

/-- The letters of the first text stand in the second, in their order. -/
def Keeps (cs ds : List Char) : Prop := (letters cs).Sublist ds

instance (cs ds : List Char) : Decidable (Keeps cs ds) :=
  inferInstanceAs (Decidable ((letters cs).Sublist ds))

lemma keeps_iff {cs ds : List Char} : Keeps cs ds ↔ (letters cs).Sublist (letters ds) := by
  refine ⟨fun h => ?_, fun h => h.trans (letters_sublist ds)⟩
  have hletters := h.filter (!isBlank ·)
  rwa [← letters, letters_letters] at hletters

namespace Keeps

variable {cs ds es fs : List Char}

lemma refl (cs : List Char) : Keeps cs cs := letters_sublist cs

lemma nil (ds : List Char) : Keeps [] ds := List.nil_sublist ds

lemma of_letters_eq (h : letters cs = letters ds) : Keeps cs ds := keeps_iff.2 (h ▸ .refl _)

lemma of_sublist (h : cs.Sublist ds) : Keeps cs ds := (letters_sublist cs).trans h

lemma trans (h : Keeps cs ds) (h' : Keeps ds es) : Keeps cs es := (keeps_iff.1 h).trans h'

lemma append (h : Keeps cs ds) (h' : Keeps es fs) : Keeps (cs ++ es) (ds ++ fs) := by
  rw [Keeps, letters_append]
  exact List.Sublist.append h h'

lemma behind (es : List Char) (h : Keeps cs ds) : Keeps cs (es ++ ds) :=
  h.trans (of_sublist (List.sublist_append_right es ds))

lemma before (es : List Char) (h : Keeps cs ds) : Keeps cs (ds ++ es) :=
  h.trans (of_sublist (List.sublist_append_left ds es))

variable {α : Type}

lemma flatMap {f g : α → List Char} {xs : List α} (h : ∀ x ∈ xs, Keeps (f x) (g x)) :
    Keeps (xs.flatMap f) (xs.flatMap g) := by
  induction xs with
  | nil => exact .refl []
  | cons x xs ih =>
    obtain ⟨hx, hxs⟩ := List.forall_mem_cons.1 h
    exact hx.append (ih hxs)

lemma flatten_map {f : List Char → List Char} {pieces : List (List Char)}
    (h : ∀ piece ∈ pieces, Keeps piece (f piece)) : Keeps pieces.flatten (pieces.map f).flatten := by
  rw [← List.flatMap_id]
  exact flatMap h

/-- Pieces are kept whatever is put between them. -/
lemma intercalate (separator : List Char) (pieces : List (List Char)) :
    Keeps pieces.flatten (List.intercalate separator pieces) := by
  induction pieces with
  | nil => exact .nil _
  | cons piece pieces ih =>
    cases pieces with
    | nil => simpa using Keeps.refl piece
    | cons next pieces =>
      rw [List.intercalate_cons_cons, List.append_assoc]
      exact (refl piece).append (ih.behind separator)

end Keeps

end Interchange.Text
