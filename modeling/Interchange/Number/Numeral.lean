import Interchange.Number.Binary64
import Interchange.Number.Digits
import Interchange.Text.Lines

/-!
# Numerals in free text

A whole number may stand between blanks, carry a sign, use the digits of any script and separate
digits by single underscores. A decimal numeral of more than 4300 digits is refused, so that
reading one never takes quadratic time.
-/
namespace Interchange.Number

inductive NumeralError where
  | malformed
  | tooLong (digits : Nat)
deriving DecidableEq

def digitLimit : Nat := 4300

/-- The blanks a numeral may stand between: all but the four ASCII separators. -/
def isNumeralBlank (c : Char) : Bool :=
  Text.isBlank c && !(0x1c ≤ c.toNat && c.toNat ≤ 0x1f)

def trimNumeral (cs : List Char) : List Char :=
  ((cs.dropWhile isNumeralBlank).reverse.dropWhile isNumeralBlank).reverse

/-- A leading sign and what follows it. -/
def splitSign : List Char → Bool × List Char
  | '-' :: cs => (true, cs)
  | '+' :: cs => (false, cs)
  | cs => (false, cs)

/-- The value of a digit up to a base of sixteen; letters count from ten. -/
def digitIn? (base : Nat) (c : Char) : Option Nat :=
  let letter (first : Char) : Option Nat :=
    if first ≤ c ∧ c.toNat < first.toNat + 6 then some (c.toNat - first.toNat + 10) else none
  match Text.decimalValue? c <|> letter 'a' <|> letter 'A' with
  | some d => if d < base then some d else none
  | none => none

/-- The values of a run of digits with single underscores between them. -/
def digitRun? (base : Nat) : List Char → Option (List Nat)
  | [] => none
  | [c] => (digitIn? base c).map ([·])
  | c :: '_' :: cs => do
    let d ← digitIn? base c
    let ds ← digitRun? base cs
    some (d :: ds)
  | c :: cs => do
    let d ← digitIn? base c
    let ds ← digitRun? base cs
    some (d :: ds)

def valueOfRun (base : Nat) (ds : List Nat) : Nat := ds.foldl (fun n d => n * base + d) 0

def signed (negative : Bool) (n : Nat) : Int := if negative then -(n : Int) else n

def readInt (cs : List Char) : Except NumeralError Int :=
  let (negative, body) := splitSign (trimNumeral cs)
  match digitRun? 10 body with
  | none => .error .malformed
  | some ds =>
    if digitLimit < ds.length then .error (.tooLong ds.length)
    else .ok (signed negative (valueOfRun 10 ds))

def readInt? (cs : List Char) : Option Int := (readInt cs).toOption

/-- A hexadecimal numeral; a leading `0x` and an underscore after it may stand. -/
def readHex? (cs : List Char) : Option Int :=
  let (negative, body) := splitSign (trimNumeral cs)
  let run (cs : List Char) : Option Int :=
    (digitRun? 16 cs).map fun ds => signed negative (valueOfRun 16 ds)
  match body with
  | '0' :: x :: '_' :: rest => if x = 'x' ∨ x = 'X' then run rest else run body
  | '0' :: x :: rest => if x = 'x' ∨ x = 'X' then run rest else run body
  | _ => run body

/-- Digits of a decimal fraction, empty where a side of the point is. -/
private def fractionRun? (cs : List Char) : Option (List Nat) :=
  if cs.isEmpty then some [] else digitRun? 10 cs

private def lowerAscii (c : Char) : Char := if 'A' ≤ c ∧ c ≤ 'Z' then Char.ofNat (c.toNat + 32) else c

/-- A decimal numeral with an optional point and power of ten, rounded to the nearest number. -/
def readDecimal? (cs : List Char) : Option Binary64 :=
  let (negative, body) := splitSign (trimNumeral cs)
  let name := String.ofList (body.map lowerAscii)
  if name = "inf" ∨ name = "infinity" then some (.infinity negative)
  else if name = "nan" then some .nan
  else do
    let isMark (c : Char) : Bool := c == 'e' || c == 'E'
    let mantissa := body.takeWhile (!isMark ·)
    let power ← match body.dropWhile (!isMark ·) with
      | [] => some (0 : Int)
      | _ :: rest =>
        let (down, ds) := splitSign rest
        (digitRun? 10 ds).map fun ds => signed down (valueOfRun 10 ds)
    let whole ← fractionRun? (mantissa.takeWhile (· != '.'))
    let part ← match mantissa.dropWhile (· != '.') with
      | [] => some []
      | _ :: rest => fractionRun? rest
    if whole.isEmpty && part.isEmpty then none
    else some (.ofDecimal negative (valueOfRun 10 (whole ++ part)) (power - part.length))

end Interchange.Number
