import Interchange.Json.Basic
import Interchange.Json.Parser
import Mathlib.Tactic

/-!
# Texts in JSON

A text is read back as it was, whichever characters are escaped: by a letter, by a code, or by the
two codes of a character beyond the first plane.
-/
namespace Interchange.Json

open Text (hexDigit hexDigits)

lemma hexValue?_hexDigit : ∀ d < 16, hexValue? (hexDigit d) = some d := by decide

lemma hexDigits_four (n : ℕ) : hexDigits 4 n =
    [hexDigit (n / 16 / 16 / 16 % 16), hexDigit (n / 16 / 16 % 16), hexDigit (n / 16 % 16),
      hexDigit (n % 16)] := rfl

lemma code?_hexDigits {n : ℕ} (h : n < 0x10000) : code? (hexDigits 4 n) = some n := by
  rw [hexDigits_four, code?, hexValue?_hexDigit _ (Nat.mod_lt _ (by decide)),
    hexValue?_hexDigit _ (Nat.mod_lt _ (by decide)),
    hexValue?_hexDigit _ (Nat.mod_lt _ (by decide)),
    hexValue?_hexDigit _ (Nat.mod_lt _ (by decide))]
  simp only [Option.bind_eq_bind, Option.bind_some, Option.some_inj]
  omega

lemma escapeCode_hexDigits {n : ℕ} (h : n < 0x10000) {rest : List Char} (hrest : rest ≠ []) :
    escapeCode ('u' :: (hexDigits 4 n ++ rest)) = .ok (n, rest) := by
  have htake : (hexDigits 4 n ++ rest).take 4 = hexDigits 4 n := rfl
  have hdrop : (hexDigits 4 n ++ rest).drop 4 = rest := rfl
  rw [escapeCode, List.drop_one, List.tail_cons, hdrop, htake, if_neg (by simpa using hrest),
    code?_hexDigits h]

/-- The number of a character is none of the halves of pairs. -/
lemma ofCode_toNat (c : Char) : Point.ofCode c.toNat = .char c := by
  have hscalar : c.toNat < 0xd800 ∨ 0xdfff < c.toNat ∧ c.toNat < 0x110000 := c.valid
  rw [Point.ofCode, dif_neg (by omega), Char.ofNat_toNat]

lemma ofCode_half (n : Fin 0x800) : Point.ofCode (0xd800 + n) = .half n := by
  have hn := n.isLt
  rw [Point.ofCode, dif_pos (by omega)]
  exact congrArg Point.half (Fin.ext (Nat.add_sub_cancel_left 0xd800 n))

variable {start whole rest : List Char} {read : List Point} {c : Char}

/-- A character of the first plane, by its code. -/
lemma escape_code (h : c.toNat < 0x10000) (hrest : rest ≠ []) :
    escape start whole ('u' :: (hexDigits 4 c.toNat ++ rest)) = .ok (.char c, rest) := by
  have hscalar : c.toNat < 0xd800 ∨ 0xdfff < c.toNat ∧ c.toNat < 0x110000 := c.valid
  have hhigh : isHighHalf c.toNat = false := by simp [isHighHalf]; omega
  rw [escape, escapeCode_hexDigits h hrest]
  dsimp only
  split
  · rw [hhigh, Bool.false_and, if_neg Bool.false_ne_true, ofCode_toNat]
  · rw [ofCode_toNat]

/-- No text in which a code escape of a second half comes first. -/
def BeginsApart (rest : List Char) : Prop :=
  ∀ second, rest = '\\' :: 'u' :: second →
    ∃ n after, escapeCode ('u' :: second) = .ok (n, after) ∧ isLowHalf n = false

/-- Half of a pair, by its code. -/
lemma escape_half {n : Fin 0x800} (hrest : rest ≠ [])
    (happart : (Point.half n).isHigh → BeginsApart rest) :
    escape start whole ('u' :: (hexDigits 4 (0xd800 + n) ++ rest)) = .ok (.half n, rest) := by
  have hn := n.isLt
  rw [escape, escapeCode_hexDigits (by omega) hrest]
  dsimp only
  split
  · next second =>
    split
    · next hpair =>
      have hhigh : (Point.half n).isHigh := by
        simp only [isHighHalf, Bool.and_eq_true, decide_eq_true_eq] at hpair
        simp only [Point.isHigh, decide_eq_true_eq]
        omega
      obtain ⟨low, after, hcode, hlow⟩ := happart hhigh second rfl
      rw [hcode]
      simp only [hlow, Bool.false_eq_true, if_false, ofCode_half]
    · rw [ofCode_half]
  · rw [ofCode_half]

/-- The first half of a character beyond the first plane. -/
def highHalf (c : Char) : ℕ := 0xd800 + (c.toNat - 0x10000) / 0x400

/-- The second half. -/
def lowHalf (c : Char) : ℕ := 0xdc00 + (c.toNat - 0x10000) % 0x400

lemma lowHalf_bounds (c : Char) : 0xdc00 ≤ lowHalf c ∧ lowHalf c < 0xe000 := by
  unfold lowHalf
  omega

section

variable (h : 0x10000 ≤ c.toNat)

include h

lemma highHalf_bounds : 0xd800 ≤ highHalf c ∧ highHalf c < 0xdc00 := by
  have hscalar : c.toNat < 0xd800 ∨ 0xdfff < c.toNat ∧ c.toNat < 0x110000 := c.valid
  unfold highHalf
  omega

lemma joinHalves_halves : joinHalves (highHalf c) (lowHalf c) = c := by
  have hnumber : 0x10000 + (highHalf c - 0xd800) * 0x400 + (lowHalf c - 0xdc00) = c.toNat := by
    unfold highHalf lowHalf
    omega
  rw [joinHalves, hnumber, Char.ofNat_toNat]

/-- A character beyond the first plane, by the codes of its halves. -/
lemma escape_codes (hrest : rest ≠ []) :
    escape start whole ('u' :: (hexDigits 4 (highHalf c) ++
      ('\\' :: 'u' :: (hexDigits 4 (lowHalf c) ++ rest)))) = .ok (.char c, rest) := by
  obtain ⟨hhighFrom, hhighBelow⟩ := highHalf_bounds h
  obtain ⟨hlowFrom, hlowBelow⟩ := lowHalf_bounds c
  have hhigh : isHighHalf (highHalf c) = true := by simp [isHighHalf, hhighFrom, hhighBelow]
  have hlow : isLowHalf (lowHalf c) = true := by simp [isLowHalf, hlowFrom, hlowBelow]
  have hmore : ((hexDigits 4 (lowHalf c) ++ rest).drop 4).isEmpty = false := by
    simpa [hexDigits_four] using hrest
  have hsecond : escapeCode ('u' :: (hexDigits 4 (lowHalf c) ++ rest)) = .ok (lowHalf c, rest) :=
    escapeCode_hexDigits (by omega) hrest
  rw [escape, escapeCode_hexDigits (by omega) (by simp)]
  simp only [hhigh, hmore, Bool.not_false, Bool.and_self, if_true, hsecond, hlow,
    joinHalves_halves h]

end

lemma parseText_quote : parseText start read ('"' :: rest) = .ok (read.reverse, rest) := by
  rw [parseText]

lemma parseText_escape {point : Point} {after : List Char}
    (h : escape start ('\\' :: rest) rest = .ok (point, after)) :
    parseText start read ('\\' :: rest) = parseText start (point :: read) after := by
  rw [parseText]
  split
  · next e he =>
    rw [h] at he
    cases he
  · next d others hd =>
    rw [h] at hd
    cases hd
    rfl

lemma parseText_plain (hquote : c ≠ '"') (hslash : c ≠ '\\') (hcontrol : 0x20 ≤ c.toNat) :
    parseText start read (c :: rest) = parseText start (.char c :: read) rest := by
  rw [parseText.eq_def]
  split
  · next h => cases h
  · next h =>
    cases h
    exact absurd rfl hquote
  · next h =>
    cases h
    exact absurd rfl hslash
  · next d others _ _ h =>
    cases h
    rw [if_neg (by omega)]

/-- The cases are the ways to write a character. -/
lemma parseText_printChar (asciiOnly : Bool) (c : Char) (hrest : rest ≠ []) :
    parseText start read (printChar asciiOnly c ++ rest) =
      parseText start (.char c :: read) rest := by
  unfold printChar
  split
  · next h => rcases h with rfl | rfl <;> exact parseText_escape rfl
  · next hplain =>
    rw [not_or] at hplain
    split
    · next h => exact h ▸ parseText_escape rfl
    split
    · next h => exact h ▸ parseText_escape rfl
    split
    · next h => exact h ▸ parseText_escape rfl
    split
    · next h =>
      refine parseText_escape ?_
      have hback : Char.ofNat 8 = c := by rw [← h, Char.ofNat_toNat]
      rw [← hback]
      rfl
    split
    · next h =>
      refine parseText_escape ?_
      have hfeed : Char.ofNat 12 = c := by rw [← h, Char.ofNat_toNat]
      rw [← hfeed]
      rfl
    split
    · next h => exact parseText_escape (escape_code (by omega) hrest)
    · next hcontrol =>
      split
      · unfold codeUnits
        dsimp only
        split
        · next h => exact parseText_escape (escape_code h hrest)
        · next h =>
          rw [codeUnit, codeUnit, List.append_assoc]
          exact parseText_escape (escape_codes (by omega) hrest)
      · exact parseText_plain hplain.1 hplain.2 (by omega)

/-- What is written for a character goes on with no second half. -/
lemma beginsApart_printChar (asciiOnly : Bool) (c : Char) (hrest : rest ≠ []) :
    BeginsApart (printChar asciiOnly c ++ rest) := by
  have hscalar : c.toNat < 0xd800 ∨ 0xdfff < c.toNat ∧ c.toNat < 0x110000 := c.valid
  have hcode {n : ℕ} {others : List Char} (hn : n < 0x10000) (hlow : isLowHalf n = false)
      (hothers : others ≠ []) : BeginsApart ('\\' :: 'u' :: (hexDigits 4 n ++ others)) := by
    rintro _ ⟨⟩
    exact ⟨n, others, escapeCode_hexDigits hn hothers, hlow⟩
  have hletter {d : Char} {others : List Char} (hd : d ≠ 'u') :
      BeginsApart ('\\' :: d :: others) := by
    rintro _ ⟨⟩
    exact absurd rfl hd
  unfold printChar
  split
  · next h => rcases h with rfl | rfl <;> exact hletter (by decide)
  next hplain =>
  split
  · exact hletter (by decide)
  split
  · exact hletter (by decide)
  split
  · exact hletter (by decide)
  split
  · exact hletter (by decide)
  split
  · exact hletter (by decide)
  split
  · exact hcode (by omega) (by simp [isLowHalf]; omega) hrest
  split
  · unfold codeUnits
    dsimp only
    split
    · exact hcode (by omega) (by simp [isLowHalf]; omega) hrest
    · rw [codeUnit, codeUnit, List.append_assoc]
      exact hcode (by omega) (by simp [isLowHalf]; omega) (by simp)
  · rintro _ ⟨⟩
    exact absurd (.inr rfl) hplain

/-- Characters alone. -/
def IsWhole (points : List Point) : Prop := ∀ point ∈ points, point.isHalf = false

/-- No first half of a pair stands right before a second one. -/
def IsUnpaired (points : List Point) : Prop :=
  points.IsChain fun point next => ¬(point.isHigh ∧ next.isLow)

/-- What is read back as it was written: anything without a pair of halves where every character
outside ASCII is escaped, and characters elsewhere. -/
def IsKept (asciiOnly : Bool) (points : List Point) : Prop :=
  if asciiOnly then IsUnpaired points else IsWhole points

lemma IsKept.tail {asciiOnly : Bool} {point : Point} {points : List Point}
    (h : IsKept asciiOnly (point :: points)) : IsKept asciiOnly points := by
  cases asciiOnly with
  | true => exact List.IsChain.tail h
  | false => exact (List.forall_mem_cons.1 h).2

/-- The characters between the quotes, where no half is written for itself. -/
def spelled (asciiOnly : Bool) (points : List Point) : List Char :=
  (points.flatMap (printPoint asciiOnly)).map Point.whole

lemma spelled_char (asciiOnly : Bool) (c : Char) (points : List Point) :
    spelled asciiOnly (.char c :: points) = printChar asciiOnly c ++ spelled asciiOnly points := by
  rw [spelled, List.flatMap_cons, List.map_append, printPoint, Wide.map_whole_char]
  rfl

lemma spelled_half (n : Fin 0x800) (points : List Point) :
    spelled true (.half n :: points) =
      '\\' :: 'u' :: (hexDigits 4 (0xd800 + n) ++ spelled true points) := by
  rw [spelled, List.flatMap_cons, List.map_append, printPoint, if_pos rfl, Wide.map_whole_char]
  rfl

/-- A first half is followed by the end, a character or another first half. -/
lemma beginsApart_spelled {n : Fin 0x800} {points : List Point}
    (h : IsKept true (.half n :: points)) (hhigh : (Point.half n).isHigh) :
    BeginsApart (spelled true points ++ '"' :: rest) := by
  cases points with
  | nil => rintro _ ⟨⟩
  | cons point points =>
    cases point with
    | char c =>
      rw [spelled_char, List.append_assoc]
      exact beginsApart_printChar true c (by simp)
    | half m =>
      have hlow : ¬(Point.half m).isLow := fun hlow =>
        (List.isChain_cons_cons.1 h).1 ⟨hhigh, hlow⟩
      have hm := m.isLt
      simp only [Point.isLow, decide_eq_true_eq, not_le] at hlow
      rw [spelled_half, List.cons_append, List.cons_append, List.append_assoc]
      rintro _ ⟨⟩
      exact ⟨_, _, escapeCode_hexDigits (by omega) (by simp), by simp [isLowHalf]; omega⟩

/-- The induction is on the points; what is read of a half depends on what follows it. -/
lemma parseText_spelled {asciiOnly : Bool} {points : List Point} (h : IsKept asciiOnly points)
    (rest : List Char) : parseText start read (spelled asciiOnly points ++ '"' :: rest) =
      .ok (read.reverse ++ points, rest) := by
  induction points generalizing read with
  | nil => rw [spelled, List.flatMap_nil, List.map_nil, List.nil_append, parseText_quote,
      List.append_nil]
  | cons point points ih =>
    have hread : (point :: read).reverse ++ points = read.reverse ++ point :: points := by simp
    cases point with
    | char c =>
      rw [spelled_char, List.append_assoc, parseText_printChar asciiOnly c (by simp), ih h.tail,
        hread]
    | half n =>
      have hascii : asciiOnly = true := by
        by_contra hnot
        rw [IsKept, if_neg hnot] at h
        exact Bool.noConfusion (h _ List.mem_cons_self)
      subst hascii
      have hhalf (whole : List Char) : escape start whole
          ('u' :: (hexDigits 4 (0xd800 + n) ++ (spelled true points ++ '"' :: rest))) =
            .ok (.half n, spelled true points ++ '"' :: rest) :=
        escape_half (by simp) (beginsApart_spelled h)
      rw [spelled_half, List.cons_append, List.cons_append, List.append_assoc,
        parseText_escape (hhalf _), ih h.tail, hread]

end Interchange.Json
