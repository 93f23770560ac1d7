/-!
# Text with halves of pairs

A character beyond the first plane can be written as a pair of codes, and JSON lets half of such a
pair stand alone. A point is a character or such a half. Most texts are made of characters; a wide
text is made of points. Where there is no place for a half the replacement character stands for it.
-/
namespace Interchange

inductive Point where
  | char (c : Char)
  | half (n : Fin 0x800)
deriving DecidableEq

namespace Point

def isHalf : Point → Bool
  | .char _ => false
  | .half _ => true

/-- The first half of a pair. -/
def isHigh : Point → Bool
  | .char _ => false
  | .half n => n < 0x400

/-- The second half. -/
def isLow : Point → Bool
  | .char _ => false
  | .half n => 0x400 ≤ n

def isAscii : Point → Bool
  | .char c => c.toNat < 128
  | .half _ => false

def ofCode (n : Nat) : Point :=
  if h : 0xd800 ≤ n ∧ n < 0xe000 then .half ⟨n - 0xd800, by omega⟩ else .char (Char.ofNat n)

/-- The character, or the one that stands for a half. -/
def whole : Point → Char
  | .char c => c
  | .half _ => Char.ofNat 0xfffd

end Point

/-- Text in which halves of pairs may stand alone. -/
structure Wide where
  points : List Point
deriving DecidableEq, Inhabited

/-- What serves as text: a sequence of points, of which one is empty. -/
class Textual (τ : Type) where
  empty : τ
  points : τ → List Point

instance : Textual String := ⟨"", fun text => text.toList.map .char⟩

instance : Textual Wide := ⟨⟨[]⟩, Wide.points⟩

namespace Wide

def ofString (text : String) : Wide := ⟨text.toList.map .char⟩

instance : Coe String Wide := ⟨ofString⟩

/-- The text of characters alone. -/
def whole (text : Wide) : String := String.ofList (text.points.map Point.whole)

theorem map_whole_char (cs : List Char) : (cs.map Point.char).map Point.whole = cs := by
  rw [List.map_map]
  exact List.map_id cs

@[simp] theorem whole_ofString (text : String) : (ofString text).whole = text := by
  rw [whole, ofString, map_whole_char, String.ofList_toList]

@[simp] theorem ofString_inj {text other : String} : ofString text = ofString other ↔ text = other :=
  ⟨fun h => by rw [← whole_ofString text, h, whole_ofString], congrArg ofString⟩

end Wide

end Interchange
