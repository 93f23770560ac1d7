import Interchange.Text.Quoted

/-!
# Bytes and text

Bytes are read as UTF-8 where they are valid UTF-8. Otherwise each byte is one character of the
western code page, or of Latin-1 where the code page leaves a byte undefined. A byte order mark at
the start is not part of the text. Text with halves of pairs has no bytes: the first of them, with
those that follow in a row, are at fault.

The other way round, bytes stand in a text as Base64: three of them are four characters of a
sixty-four letter alphabet, a shorter last group padded to four. Reading it is strict: no other
character is accepted, and nothing follows the padding that completes a group. Padding after a
complete group is empty and does no harm.
-/
namespace Interchange.Text

/-- How bytes that are not UTF-8 were read. -/
inductive Fallback where
  | westernCodePage
  | latin1
deriving DecidableEq

def Fallback.label : Fallback → String
  | .westernCodePage => "cp1252"
  | .latin1 => "latin-1"

/-- The characters of the western code page between the controls and Latin-1; the holes are the
bytes it leaves undefined. -/
def westernUpper : List (Option Nat) := [
  some 0x20ac, none, some 0x201a, some 0x0192, some 0x201e, some 0x2026, some 0x2020, some 0x2021,
  some 0x02c6, some 0x2030, some 0x0160, some 0x2039, some 0x0152, none, some 0x017d, none,
  none, some 0x2018, some 0x2019, some 0x201c, some 0x201d, some 0x2022, some 0x2013, some 0x2014,
  some 0x02dc, some 0x2122, some 0x0161, some 0x203a, some 0x0153, none, some 0x017e, some 0x0178]

def westernChar? (b : UInt8) : Option Char :=
  if 0x80 ≤ b ∧ b < 0xa0 then (westernUpper.getD (b.toNat - 0x80) none).map Char.ofNat
  else some (Char.ofNat b.toNat)

def latinChar (b : UInt8) : Char := Char.ofNat b.toNat

def byteOrderMark : List UInt8 := [0xef, 0xbb, 0xbf]

/-- The bytes after a byte order mark, if one is there. -/
def withoutMark (data : ByteArray) : ByteArray :=
  if (data.extract 0 3).data.toList = byteOrderMark then data.extract 3 data.size else data

/-- The text of the bytes, and how they were read when they are not UTF-8. -/
def decode (data : ByteArray) : String × Option Fallback :=
  let data := withoutMark data
  match String.fromUTF8? data with
  | some text => (text, none)
  | none =>
    match data.data.toList.mapM westernChar? with
    | some cs => (String.ofList cs, some .westernCodePage)
    | none => (String.ofList (data.data.toList.map latinChar), some .latin1)

/-- Halves of pairs in a row: where the first stands, which it is, and how many follow it. -/
structure Unencodable where
  place : Nat
  first : Fin 0x800
  others : Nat
deriving DecidableEq

def Unencodable.message (fault : Unencodable) : String :=
  let what :=
    if fault.others = 0 then
      "character '\\u" ++ String.ofList (hexDigits 4 (0xd800 + fault.first)) ++ "' in position " ++
        Number.natText fault.place
    else
      "characters in position " ++ Number.natText fault.place ++ "-" ++
        Number.natText (fault.place + fault.others)
  "'utf-8' codec can't encode " ++ what ++ ": surrogates not allowed"

/-- The text that has bytes, if no point is half of a pair. -/
def encodable (points : List Point) : Except Unencodable String :=
  match points.dropWhile fun point => !point.isHalf with
  | .half n :: rest =>
    .error ⟨(points.takeWhile fun point => !point.isHalf).length, n,
      (rest.takeWhile Point.isHalf).length⟩
  | _ => .ok (String.ofList (points.map Point.whole))

end Interchange.Text

namespace Interchange.Text.Base64

def alphabet : List Char :=
  "ABCDEFGHIJKLMNOPQRSTUVWXYZabcdefghijklmnopqrstuvwxyz0123456789+/".toList

def letter (sextet : Nat) : Char := alphabet.getD sextet 'A'

def sextet? (c : Char) : Option Nat := alphabet.findIdx? (· == c)

def encodeBytes : List UInt8 → List Char
  | [] => []
  | [a] =>
    let n := a.toNat
    [letter (n / 4), letter (n % 4 * 16), '=', '=']
  | [a, b] =>
    let n := a.toNat * 256 + b.toNat
    [letter (n / 1024), letter (n / 16 % 64), letter (n % 16 * 4), '=']
  | a :: b :: c :: rest =>
    let n := (a.toNat * 256 + b.toNat) * 256 + c.toNat
    letter (n / 262144) :: letter (n / 4096 % 64) :: letter (n / 64 % 64) :: letter (n % 64) ::
      encodeBytes rest

/-- Reads group by group. Bits that no byte needs are ignored. -/
def decodeChars : List Char → Option (List UInt8)
  | [] => some []
  | a :: b :: '=' :: '=' :: [] => do
    let x ← sextet? a
    let y ← sextet? b
    some [UInt8.ofNat (x * 4 + y / 16)]
  | a :: b :: c :: '=' :: [] => do
    let x ← sextet? a
    let y ← sextet? b
    let z ← sextet? c
    some [UInt8.ofNat (x * 4 + y / 16), UInt8.ofNat (y % 16 * 16 + z / 4)]
  | a :: b :: c :: d :: rest => do
    let x ← sextet? a
    let y ← sextet? b
    let z ← sextet? c
    let w ← sextet? d
    let bytes ← if rest.all (· == '=') then some [] else decodeChars rest
    some (UInt8.ofNat (x * 4 + y / 16) :: UInt8.ofNat (y % 16 * 16 + z / 4) ::
      UInt8.ofNat (z % 4 * 64 + w) :: bytes)
  | _ => none

def encode (data : ByteArray) : String := String.ofList (encodeBytes data.data.toList)

def decode? (text : String) : Option ByteArray :=
  (decodeChars text.toList).map fun bytes => ⟨bytes.toArray⟩

end Interchange.Text.Base64
