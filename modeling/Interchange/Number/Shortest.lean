import Interchange.Number.Binary64
import Interchange.Number.Digits

/-!
# The shortest decimal of a floating point number

Every real in a certain interval around a number rounds to it. On the decimal grids with one, two, …
seventeen digits the two neighbours of the value are tried in turn: the first grid with a neighbour
in the interval gives the fewest digits that read back, and of two neighbours the nearer one, the
even one when they are equally near. A format decides the rest: which magnitudes are written
positionally, how an exponent looks, and the names of the values that have no digits.
-/
namespace Interchange.Number

/-- `digits` times ten to the power `power`. -/
structure Decimal where
  digits : Nat
  power : Int
deriving DecidableEq

namespace Decimal

/-- Trailing zeros moved into the power, so that a value has one form. -/
def normalize (fuel : Nat) (d : Decimal) : Decimal :=
  match fuel with
  | 0 => d
  | fuel + 1 =>
    if d.digits ≠ 0 ∧ d.digits % 10 = 0 then normalize fuel ⟨d.digits / 10, d.power + 1⟩ else d

end Decimal

namespace Binary64

/-- The interval of the reals that round to a positive finite number, as two numerators over one
denominator; its ends belong to it when `closed`. -/
structure Neighbourhood where
  low : Nat
  value : Nat
  high : Nat
  den : Nat
  closed : Bool

/-- Half the distance to the next number on either side. Below a power of two the numbers lie
twice as close. -/
def neighbourhood (x : Binary64) : Neighbourhood :=
  let quarter := 4 * x.significand
  let below := if x.fractionField = 0 ∧ 1 < x.exponentField then 1 else 2
  let scale := Nat.pow 2 (x.exponent - 2).toNat
  { low := (quarter - below) * scale
    value := quarter * scale
    high := (quarter + 2) * scale
    den := Nat.pow 2 (2 - x.exponent).toNat
    closed := x.significand % 2 = 0 }

/-- Whether the rational `num / den` lies in the interval. -/
def Neighbourhood.contains (i : Neighbourhood) (num den : Nat) : Bool :=
  if i.closed then i.low * den ≤ num * i.den && num * i.den ≤ i.high * den
  else i.low * den < num * i.den && num * i.den < i.high * den

/-- The number of digits before the point, negative for the zeros after it. -/
def Neighbourhood.magnitude (i : Neighbourhood) : Int :=
  let guess : Int := ((digits i.value).length : Int) - (digits i.den).length
  if i.den * Nat.pow 10 guess.toNat ≤ i.value * Nat.pow 10 (-guess).toNat then guess + 1 else guess

/-- The nearer neighbour of the value on the grid of multiples of ten to the power `power`, if
one of the two lies in the interval. -/
def Neighbourhood.onGrid? (i : Neighbourhood) (power : Int) : Option Decimal :=
  let up := Nat.pow 10 power.toNat
  let down := Nat.pow 10 (-power).toNat
  let num := i.value * down
  let den := i.den * up
  let floor := num / den
  let fits (d : Nat) : Bool := i.contains (d * up) down
  let twice := 2 * (num % den)
  let upper := den < twice || twice == den && floor % 2 == 1
  let near := if upper then floor + 1 else floor
  let far := if upper then floor else floor + 1
  if fits near then some ⟨near, power⟩
  else if fits far then some ⟨far, power⟩
  else none

/-- The first grid with a hit, from `count` digits up to seventeen. -/
def Neighbourhood.search (i : Neighbourhood) (magnitude : Int) : Nat → Nat → Decimal
  | _, 0 => ⟨i.value / i.den, 0⟩
  | count, tries + 1 =>
    match i.onGrid? (magnitude - count) with
    | some d => d
    | none => search i magnitude (count + 1) tries

/-- The decimal with the fewest digits that rounds to a finite number. -/
def shortest (x : Binary64) : Decimal :=
  if x.isZero then ⟨0, 0⟩
  else
    let i := x.neighbourhood
    (i.search i.magnitude 1 17).normalize 20

end Binary64

/-- The decisions of a number format. A value is positional when the place of its first digit,
counted from the units, lies from `leastPlace` to below `placeLimit`. -/
structure FloatFormat where
  leastPlace : Int
  placeLimit : Int
  exponentMark : Char
  exponentDigits : Nat
  nan : String
  infinity : String

/-- Documents write numbers positionally from a ten-thousandth to below ten to the sixteenth,
keep one place after the point, and give an exponent a sign and two digits. -/
def FloatFormat.document : FloatFormat :=
  ⟨-4, 16, 'e', 2, "NaN", "Infinity"⟩

/-- In messages the values without digits have short names. -/
def FloatFormat.display : FloatFormat :=
  ⟨-4, 16, 'e', 2, "nan", "inf"⟩

private def padLeft (width : Nat) (cs : List Char) : List Char :=
  List.replicate (width - cs.length) '0' ++ cs

/-- Digits with the point after the first `before` of them, zeros filling both sides. -/
private def positional (ds : List Char) (before : Int) : List Char :=
  if before ≤ 0 then '0' :: '.' :: (List.replicate (-before).toNat '0' ++ ds)
  else
    let whole := ds.take before.toNat
    let part := ds.drop before.toNat
    whole ++ List.replicate (before.toNat - whole.length) '0' ++
      '.' :: (if part.isEmpty then ['0'] else part)

private def scientific (format : FloatFormat) (ds : List Char) (place : Int) : List Char :=
  let head := ds.take 1
  let part := ds.drop 1
  head ++ (if part.isEmpty then [] else '.' :: part) ++
    format.exponentMark :: (if place < 0 then '-' else '+') ::
      padLeft format.exponentDigits (digits place.natAbs)

/-- The characters of a nonnegative finite number. -/
def FloatFormat.magnitude (format : FloatFormat) (d : Decimal) : List Char :=
  let ds := digits d.digits
  let before : Int := ds.length + d.power
  let place := before - 1
  if d.digits = 0 then ['0', '.', '0']
  else if format.leastPlace ≤ place ∧ place < format.placeLimit then positional ds before
  else scientific format ds place

def FloatFormat.render (format : FloatFormat) (x : Binary64) : String :=
  if x.isNaN then format.nan
  else
    let sign := if x.isNegative then "-" else ""
    if x.isInfinite then sign ++ format.infinity
    else sign ++ String.ofList (format.magnitude x.shortest)

end Interchange.Number
