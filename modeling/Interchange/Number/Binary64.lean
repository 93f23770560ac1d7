/-!
# Double precision numbers

A floating point number is its sixty-four bits. A finite one is a whole significand times a power
of two, so that reading, writing, comparing and dividing are exact arithmetic on whole numbers,
followed by one rounding to the nearest representable value, half to even. The quotient that is
rounded is never formed as a fraction: whole quotient and remainder decide alone.
-/
namespace Interchange.Number

/-- The whole number nearest to `num / den`, the even one of two that are equally near. -/
def roundHalfEven (num den : Nat) : Nat :=
  let floor := num / den
  let doubled := 2 * (num % den)
  if doubled < den then floor
  else if den < doubled then floor + 1
  else floor + floor % 2

structure Binary64 where
  bits : UInt64
deriving DecidableEq, Inhabited

namespace Binary64

def isNegative (x : Binary64) : Bool := x.bits >>> 63 == 1

def exponentField (x : Binary64) : Nat := (x.bits >>> 52 &&& 0x7ff).toNat

def fractionField (x : Binary64) : Nat := (x.bits &&& 0xfffffffffffff).toNat

def isNaN (x : Binary64) : Bool := x.exponentField == 2047 && x.fractionField != 0

def isInfinite (x : Binary64) : Bool := x.exponentField == 2047 && x.fractionField == 0

def isFinite (x : Binary64) : Bool := x.exponentField != 2047

/-- The whole number `m` such that a finite value is `m` times two to its `exponent`. -/
def significand (x : Binary64) : Nat :=
  if x.exponentField = 0 then x.fractionField else Nat.pow 2 52 + x.fractionField

def exponent (x : Binary64) : Int :=
  if x.exponentField = 0 then -1074 else (x.exponentField : Int) - 1075

def isZero (x : Binary64) : Bool := x.exponentField == 0 && x.fractionField == 0

/-- The number with these three fields. -/
def assemble (negative : Bool) (exponentField fractionField : Nat) : Binary64 :=
  ⟨UInt64.ofNat ((if negative then Nat.pow 2 63 else 0) + exponentField * Nat.pow 2 52 + fractionField)⟩

def zero (negative : Bool) : Binary64 := assemble negative 0 0

def infinity (negative : Bool) : Binary64 := assemble negative 2047 0

def nan : Binary64 := assemble false 2047 (Nat.pow 2 51)

/-- The value of a finite number as numerator and denominator, without its sign. -/
def ratio (x : Binary64) : Nat × Nat :=
  if 0 ≤ x.exponent then (x.significand * Nat.pow 2 x.exponent.toNat, 1)
  else (x.significand, Nat.pow 2 (-x.exponent).toNat)

/-- A rounded significand with its exponent as a number; too large a value is infinite. -/
def ofScaled (negative : Bool) (significand : Nat) (exponent : Int) : Binary64 :=
  if Nat.pow 2 53 ≤ significand then
    if 971 ≤ exponent then infinity negative
    else assemble negative (exponent + 1076).toNat (significand / 2 - Nat.pow 2 52)
  else if significand < Nat.pow 2 52 then assemble negative 0 significand
  else if 971 < exponent then infinity negative
  else assemble negative (exponent + 1075).toNat (significand - Nat.pow 2 52)

/-- The number nearest to `num / den`. The exponent is chosen so that the significand has
fifty-three bits, or as many as the least exponent leaves. -/
def ofRatio (negative : Bool) (num den : Nat) : Binary64 :=
  if num = 0 then zero negative
  else
    let least : Int := -1074
    let guess := max ((num.log2 : Int) - den.log2 - 53) least
    let scaled (exponent : Int) : Nat × Nat :=
      (num * Nat.pow 2 (-exponent).toNat, den * Nat.pow 2 exponent.toNat)
    let low := scaled guess
    let exponent := if low.1 / low.2 < Nat.pow 2 53 then guess else guess + 1
    let chosen := scaled exponent
    ofScaled negative (roundHalfEven chosen.1 chosen.2) exponent

/-- The number nearest to `digits` times ten to the power `power`. Powers far outside the range
are decided without forming them. -/
def ofDecimal (negative : Bool) (digits : Nat) (power : Int) : Binary64 :=
  if digits = 0 then zero negative
  else if 400 < power then infinity negative
  else if power + digits.log2 + 1 < -400 then zero negative
  else if 0 ≤ power then ofRatio negative (digits * Nat.pow 10 power.toNat) 1
  else ofRatio negative digits (Nat.pow 10 (-power).toNat)

def ofInt (n : Int) : Binary64 := ofRatio (n < 0) n.natAbs 1

/-- Whether the number has exactly the value of a whole number. -/
def equalsInt (x : Binary64) (n : Int) : Bool :=
  x.isFinite && (x.isZero && n == 0 ||
    x.isNegative == decide (n < 0) && x.ratio.1 == n.natAbs * x.ratio.2 && n != 0)

/-- Numeric equality: the two zeros are equal. -/
def equals (x y : Binary64) : Bool :=
  !x.isNaN && !y.isNaN && (x == y || x.isZero && y.isZero)

/-- A finite number divided by a positive whole number. -/
def divNat (x : Binary64) (n : Nat) : Binary64 :=
  ofRatio x.isNegative x.ratio.1 (x.ratio.2 * n)

/-- A finite number times a positive whole number. -/
def mulNat (x : Binary64) (n : Nat) : Binary64 :=
  ofRatio x.isNegative (x.ratio.1 * n) x.ratio.2

/-- The nearest whole number, a half going to the even neighbour. -/
def round (x : Binary64) : Int :=
  let magnitude : Nat := roundHalfEven x.ratio.1 x.ratio.2
  if x.isNegative then -(magnitude : Int) else magnitude

/-- The whole part, towards zero. -/
def truncate (x : Binary64) : Int :=
  let magnitude : Nat := x.ratio.1 / x.ratio.2
  if x.isNegative then -(magnitude : Int) else magnitude

end Binary64

end Interchange.Number
