import Interchange.Text.Encoding
import Interchange.Transfer
import Mathlib.Tactic

/-!
# Encoding and decoding text

Text that was encoded as UTF-8 is decoded as it was, without a warning, except that a byte order
mark at its start is not text any more. Bytes that are written as Base64 read back as they were, and
what is written holds only letters of the alphabet and padding.
-/
namespace Interchange.Text.Base64

lemma sextet?_letter (n : ℕ) (h : n < 64) : sextet? (letter n) = some n := by
  have every : ∀ m : Fin 64, sextet? (letter m) = some m.val := by decide +kernel
  exact every ⟨n, h⟩

lemma letter_ne_pad (n : ℕ) (h : n < 64) : letter n ≠ '=' := by
  have every : ∀ m : Fin 64, letter m ≠ '=' := by decide +kernel
  exact every ⟨n, h⟩

/-- What is written begins with a letter, so the padding of a group before it is not taken for
the end. -/
lemma all_pad_encodeBytes {bytes : List UInt8} (h : bytes ≠ []) :
    (encodeBytes bytes).all (· == '=') = false := by
  have begins {n : ℕ} {rest : List Char} (hn : n < 64) :
      (letter n :: rest).all (· == '=') = false := by
    simp [letter_ne_pad n hn]
  match bytes with
  | [a] =>
    have ha := a.toNat_lt
    exact begins (by omega)
  | [a, b] =>
    have ha := a.toNat_lt
    have hb := b.toNat_lt
    exact begins (by omega)
  | a :: b :: c :: rest =>
    have ha := a.toNat_lt
    have hb := b.toNat_lt
    have hc := c.toNat_lt
    exact begins (by omega)

/-- The recursion follows the groups of three bytes; each group's letters give its bytes back. -/
theorem decodeChars_encodeBytes (bytes : List UInt8) :
    decodeChars (encodeBytes bytes) = some bytes := by
  fun_induction encodeBytes bytes with
  | case1 => rfl
  | case2 a n =>
    have ha := a.toNat_lt
    have first : n / 4 * 4 + n % 4 * 16 / 16 = a.toNat := by omega
    rw [decodeChars.eq_2, sextet?_letter _ (by omega), sextet?_letter _ (by omega)]
    simp only [Option.bind_eq_bind, Option.bind_some, first, UInt8.ofNat_toNat]
  | case3 a b n =>
    have ha := a.toNat_lt
    have hb := b.toNat_lt
    have first : n / 1024 * 4 + n / 16 % 64 / 16 = a.toNat := by omega
    have second : n / 16 % 64 % 16 * 16 + n % 16 * 4 / 4 = b.toNat := by omega
    rw [decodeChars.eq_3 _ _ _ (letter_ne_pad _ (by omega)), sextet?_letter _ (by omega),
      sextet?_letter _ (by omega), sextet?_letter _ (by omega)]
    simp only [Option.bind_eq_bind, Option.bind_some, first, second, UInt8.ofNat_toNat]
  | case4 a b c rest n ih =>
    have ha := a.toNat_lt
    have hb := b.toNat_lt
    have hc := c.toNat_lt
    have first : n / 262144 * 4 + n / 4096 % 64 / 16 = a.toNat := by omega
    have second : n / 4096 % 64 % 16 * 16 + n / 64 % 64 / 4 = b.toNat := by omega
    have third : n / 64 % 64 % 4 * 64 + n % 64 = c.toNat := by omega
    have pad := letter_ne_pad (n % 64) (by omega)
    rw [decodeChars.eq_4 _ _ _ _ _ (fun _ h _ => pad h) (fun h _ => pad h),
      sextet?_letter _ (by omega), sextet?_letter _ (by omega), sextet?_letter _ (by omega),
      sextet?_letter _ (by omega)]
    by_cases hrest : rest = []
    · subst hrest
      simp only [Option.bind_eq_bind, Option.bind_some, first, second, third, UInt8.ofNat_toNat]
      rfl
    · simp only [Option.bind_eq_bind, Option.bind_some, first, second, third, UInt8.ofNat_toNat,
        all_pad_encodeBytes hrest, Bool.false_eq_true, if_false, ih]

@[simp] theorem decode?_encode (data : ByteArray) : decode? (encode data) = some data := by
  simp [decode?, encode, decodeChars_encodeBytes]

lemma letter_isAscii (n : ℕ) : (letter n).toNat < 128 := by
  have every : ('A' :: alphabet).all (·.toNat < 128) = true := by decide
  unfold letter
  rw [List.getD_eq_getElem?_getD]
  cases h : alphabet[n]? with
  | none => decide
  | some c =>
    have hmem : c ∈ 'A' :: alphabet := List.mem_cons_of_mem _ (List.mem_of_getElem? h)
    exact of_decide_eq_true (List.all_eq_true.1 every c hmem)

theorem encode_isAscii (data : ByteArray) : ∀ c ∈ (encode data).toList, c.toNat < 128 := by
  rw [encode, String.toList_ofList]
  have pad : '='.toNat < 128 := by decide
  fun_induction encodeBytes data.data.toList <;> simp_all [letter_isAscii]

end Interchange.Text.Base64

namespace Interchange.Text

/-- The character whose encoding is the byte order mark. -/
def markChar : Char := Char.ofNat 0xfeff

/-- A text without the byte order mark that it begins with, if it does. -/
def withoutMarkChar : List Char → List Char
  | [] => []
  | c :: cs => if c = markChar then cs else c :: cs

@[simp] lemma withoutMarkChar_markChar_cons (cs : List Char) :
    withoutMarkChar (markChar :: cs) = cs := by
  rw [withoutMarkChar, if_pos rfl]

lemma withoutMarkChar_of_head?_ne {cs : List Char} (h : cs.head? ≠ some markChar) :
    withoutMarkChar cs = cs := by
  cases cs with
  | nil => rfl
  | cons c cs =>
    have hc : c ≠ markChar := by simpa using h
    exact if_neg hc

/-- The bytes of the mark are those of its character. -/
lemma data_utf8Encode_markChar : [markChar].utf8Encode.data.toList = byteOrderMark := by
  decide +kernel

/-- Bytes that begin with the mark are text that begins with its character. -/
lemma head?_of_extract_eq_byteOrderMark {cs : List Char}
    (h : (cs.utf8Encode.extract 0 3).data.toList = byteOrderMark) : cs.head? = some markChar := by
  have hmark : cs.utf8Encode.extract 0 3 = [markChar].utf8Encode := by
    apply ByteArray.ext
    rw [← Array.toList_inj, h, data_utf8Encode_markChar]
  have hsize : 3 ≤ cs.utf8Encode.size := by
    have hthree := congrArg ByteArray.size hmark
    have hlength : [markChar].utf8Encode.size = 3 := by decide +kernel
    rw [ByteArray.size_extract, hlength] at hthree
    omega
  have hwhole : [markChar].utf8Encode ++ cs.utf8Encode.extract 3 cs.utf8Encode.size =
      cs.utf8Encode := by
    rw [← hmark, ← ByteArray.extract_eq_extract_append_extract 3 (by omega) (by omega),
      ByteArray.extract_zero_size]
  obtain ⟨rest, rfl⟩ := List.isPrefix_of_utf8Encode_append_eq_utf8Encode _ hwhole
  rfl

theorem withoutMark_utf8Encode (cs : List Char) :
    withoutMark cs.utf8Encode = (withoutMarkChar cs).utf8Encode := by
  by_cases h : cs.head? = some markChar
  · obtain ⟨rest, rfl⟩ : ∃ rest, cs = markChar :: rest := by
      cases cs with
      | nil => simp at h
      | cons c rest => exact ⟨rest, by simpa using h⟩
    have hlength : [markChar].utf8Encode.size = 3 := by decide +kernel
    have hbytes : (markChar :: rest).utf8Encode = [markChar].utf8Encode ++ rest.utf8Encode :=
      List.utf8Encode_cons
    have hprefix : ((markChar :: rest).utf8Encode.extract 0 3).data.toList = byteOrderMark := by
      rw [hbytes, ByteArray.extract_append_eq_left hlength.symm, data_utf8Encode_markChar]
    rw [withoutMark, if_pos hprefix, withoutMarkChar_markChar_cons, hbytes]
    exact ByteArray.extract_append_eq_right hlength.symm ByteArray.size_append
  · rw [withoutMark, if_neg fun hbytes => h (head?_of_extract_eq_byteOrderMark hbytes),
      withoutMarkChar_of_head?_ne h]

/-- Decoding undoes encoding, up to a byte order mark at the start. -/
theorem decode_toUTF8 (text : String) :
    decode text.toUTF8 = (String.ofList (withoutMarkChar text.toList), none) := by
  have hbytes : withoutMark text.toUTF8 =
      (String.ofList (withoutMarkChar text.toList)).toByteArray := by
    rw [String.toUTF8_eq_toByteArray, ← String.utf8Encode_toList, withoutMark_utf8Encode,
      String.toByteArray_ofList]
  have hvalid : String.fromUTF8? (withoutMark text.toUTF8) =
      some (String.ofList (withoutMarkChar text.toList)) := by
    rw [hbytes, String.fromUTF8?, dif_pos (String.isValidUTF8 _)]
    rfl
  simp only [decode, hvalid]

end Interchange.Text

namespace Interchange.Reading

/-- Written text is read without a warning. -/
theorem decodeText_toUTF8 (text : String) :
    decodeText text.toUTF8 = .ok (String.ofList (Text.withoutMarkChar text.toList)) := by
  rw [decodeText, Text.decode_toUTF8]

/-- Written text is read as it is unless it begins with the byte order mark. -/
theorem decodeText_toUTF8_of_head?_ne {text : String}
    (h : text.toList.head? ≠ some Text.markChar) : decodeText text.toUTF8 = .ok text := by
  rw [decodeText_toUTF8, Text.withoutMarkChar_of_head?_ne h, String.ofList_toList]

end Interchange.Reading
