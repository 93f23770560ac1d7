import Interchange.Document.Basic
import Interchange.Number.Numeral
import Mathlib.Tactic

/-!
# The digits of a number

Which characters the digits of a number are, what they begin with, and how many there are. Different
whole numbers have different texts, so the identifiers of one source are told apart by their numbers
alone.
-/
namespace Interchange.Number

lemma isDigit_digitChar : ∀ d < 10, isDigit (digitChar d) = true := by decide

lemma isDigit_of_mem_digits {n : ℕ} {c : Char} (h : c ∈ digits n) : isDigit c = true := by
  fun_induction digits n with
  | case1 n hn => exact List.mem_singleton.1 h ▸ isDigit_digitChar n hn
  | case2 n _ ih =>
    rcases List.mem_append.1 h with h | h
    · exact ih h
    · exact List.mem_singleton.1 h ▸ isDigit_digitChar _ (Nat.mod_lt n (by decide))

lemma exists_digits_eq_cons (n : ℕ) : ∃ d < 10, ∃ ds, digits n = digitChar d :: ds := by
  fun_induction digits n with
  | case1 n hn => exact ⟨n, hn, [], rfl⟩
  | case2 n _ ih =>
    obtain ⟨d, hd, ds, hds⟩ := ih
    exact ⟨d, hd, ds ++ [_], by rw [hds, List.cons_append]⟩

/-- Only zero begins with the digit zero. -/
lemma head?_digits_ne {n : ℕ} (h : n ≠ 0) : (digits n).head? ≠ some '0' := by
  fun_induction digits n with
  | case1 n hn =>
    have hnonzero : ∀ d < 10, d ≠ 0 → digitChar d ≠ '0' := by decide
    simpa using hnonzero n hn h
  | case2 n hn ih =>
    rw [List.head?_append_of_ne_nil _ (digits_ne_nil _)]
    exact ih (by omega)

theorem length_digits_le_iff {n k : ℕ} (hk : 0 < k) : (digits n).length ≤ k ↔ n < 10 ^ k := by
  fun_induction digits n generalizing k with
  | case1 n hn =>
    have hpow : 10 ≤ 10 ^ k := Nat.le_self_pow hk.ne' 10
    exact iff_of_true hk (hn.trans_le hpow)
  | case2 n hn ih =>
    rw [List.length_append, List.length_singleton]
    obtain ⟨k, rfl⟩ := Nat.exists_eq_succ_of_ne_zero hk.ne'
    rcases Nat.eq_zero_or_pos k with rfl | hpos
    · have hsome := List.length_pos_iff.2 (digits_ne_nil (n / 10))
      exact iff_of_false (by omega) (by simpa using hn)
    · rw [Nat.succ_eq_add_one, Nat.add_le_add_iff_right, ih hpos, pow_succ,
        Nat.div_lt_iff_lt_mul (by decide)]

/-- A smaller number has no more digits. -/
lemma length_digits_mono {m n : ℕ} (h : m ≤ n) : (digits m).length ≤ (digits n).length := by
  have hsome := List.length_pos_iff.2 (digits_ne_nil n)
  have hlarger := (length_digits_le_iff hsome).1 le_rfl
  exact (length_digits_le_iff hsome).2 (h.trans_lt hlarger)

/-- Sixty-four bits make nineteen digits at most. -/
lemma length_digits_int64 (n : Int64) : (digits n.toInt.natAbs).length ≤ digitLimit := by
  have hlow := n.le_toInt
  have hhigh := n.toInt_lt
  have hnineteen : (digits n.toInt.natAbs).length ≤ 19 :=
    (length_digits_le_iff (by decide)).2 (by omega)
  exact hnineteen.trans (by decide)

/-- A character that is not one of the ten digits is in no number. -/
lemma notMem_digits {c : Char} (h : ∀ d : Fin 10, digitChar d ≠ c) (n : ℕ) : c ∉ digits n := by
  induction n using Nat.strong_induction_on with
  | _ n ih =>
    rw [digits]
    split
    · next hn => simpa using Ne.symm (h ⟨n, hn⟩)
    · next hn =>
      have last := h ⟨n % 10, by omega⟩
      simpa using ⟨ih (n / 10) (by omega), Ne.symm last⟩

lemma minus_notMem_digits (n : ℕ) : '-' ∉ digits n := notMem_digits (by decide) n

lemma notMem_intDigits {c : Char} (h : ∀ d : Fin 10, digitChar d ≠ c) (hminus : c ≠ '-') (n : ℤ) :
    c ∉ intDigits n := by
  rw [intDigits]
  split
  · simpa [hminus] using notMem_digits h n.natAbs
  · exact notMem_digits h _

lemma digits_injective : Function.Injective digits :=
  Function.LeftInverse.injective ofDigits_digits

theorem natText_injective : Function.Injective natText :=
  fun _ _ h => digits_injective (String.ofList_injective h)

/-- The sign tells the numbers below zero from the others, and the digits do the rest. -/
theorem intText_injective : Function.Injective intText := by
  intro m n h
  have hd : intDigits m = intDigits n := String.ofList_injective h
  unfold intDigits at hd
  split at hd <;> split at hd
  · have := digits_injective (List.cons.inj hd).2
    omega
  · have minus : '-' ∈ digits n.natAbs := hd ▸ List.mem_cons_self
    exact absurd minus (minus_notMem_digits _)
  · have minus : '-' ∈ digits m.natAbs := hd ▸ List.mem_cons_self
    exact absurd minus (minus_notMem_digits _)
  · have := digits_injective hd
    omega

end Interchange.Number

namespace Interchange.IdSource

theorem nth_injective (ids : IdSource) : Function.Injective ids.nth := by
  intro m n h
  have htext : ids.stem ++ Number.intText m = ids.stem ++ Number.intText n :=
    congrArg ResourceId.text h
  have hlist := congrArg String.toList htext
  rw [String.toList_append, String.toList_append, List.append_cancel_left_eq] at hlist
  exact Number.intText_injective (String.toList_inj.1 hlist)

end Interchange.IdSource
