import Interchange.Json.Basic
import Interchange.OrderedMap

/-!
# Property values

What a node, a resource or a document may say about itself: text, a whole number of sixty-four
bits, a floating point number, a switch, a list of values or a map from names to values. A JSON
value becomes a property value unless it holds, at some depth, a null or a larger number; every
property value can be written as JSON.
-/
namespace Interchange

open Number (Binary64)

inductive Value (τ : Type := String) where
  | text (value : τ)
  | int (value : Int64)
  | float (value : Binary64)
  | bool (value : Bool)
  | list (items : List (Value τ))
  | map (fields : List (τ × Value τ))
deriving Inhabited

/-- Why a JSON value is no property value. -/
inductive ValueFault where
  | absent
  | outOfRange (number : Int)
deriving DecidableEq

def ValueFault.message : ValueFault → String
  | .absent => "Unsupported property value type: " ++ Json.kindName (.null : Json)
  | .outOfRange n => "Integer property out of 64-bit range: " ++ Number.intText n

namespace Value

section Forms

variable {τ : Type}

def ofInt? (n : Int) : Option (Value τ) :=
  if Int64.minValue.toInt ≤ n ∧ n ≤ Int64.maxValue.toInt then some (.int (Int64.ofInt n)) else none

def ofInt (n : Int) : Except ValueFault (Value τ) :=
  match ofInt? n with
  | some v => .ok v
  | none => .error (.outOfRange n)

mutual

/-- The first part, from left to right and from outside in, that is no value is the fault. -/
def ofJson : Json τ → Except ValueFault (Value τ)
  | .null => .error .absent
  | .bool b => .ok (.bool b)
  | .int n => ofInt n
  | .float x => .ok (.float x)
  | .text s => .ok (.text s)
  | .list items => (ofJsonItems items).map .list
  | .object members => (ofJsonMembers members).map .map

def ofJsonItems : List (Json τ) → Except ValueFault (List (Value τ))
  | [] => .ok []
  | item :: items => do
    let v ← ofJson item
    let vs ← ofJsonItems items
    .ok (v :: vs)

def ofJsonMembers : List (τ × Json τ) → Except ValueFault (List (τ × Value τ))
  | [] => .ok []
  | (name, value) :: members => do
    let v ← ofJson value
    let vs ← ofJsonMembers members
    .ok ((name, v) :: vs)

end

mutual

def toJson : Value τ → Json τ
  | .text s => .text s
  | .int n => .int n.toInt
  | .float x => .float x
  | .bool b => .bool b
  | .list items => .list (toJsonItems items)
  | .map fields => .object (toJsonFields fields)

def toJsonItems : List (Value τ) → List (Json τ)
  | [] => []
  | v :: vs => toJson v :: toJsonItems vs

def toJsonFields : List (τ × Value τ) → List (τ × Json τ)
  | [] => []
  | (name, v) :: fields => (name, toJson v) :: toJsonFields fields

end

end Forms

/-- A number under comparison; a switch counts as one or zero. -/
inductive Numeric where
  | whole (value : Int)
  | floating (value : Binary64)

def numeric? : Value → Option Numeric
  | .int n => some (.whole n.toInt)
  | .bool b => some (.whole (if b then 1 else 0))
  | .float x => some (.floating x)
  | _ => none

/-- Numbers are equal when their values are, whatever their kinds; what is not a number equals
itself. -/
def Numeric.same : Numeric → Numeric → Bool
  | .whole m, .whole n => m == n
  | .whole m, .floating y => y.equalsInt m
  | .floating x, .whole n => x.equalsInt n
  | .floating x, .floating y => x.equals y || x.isNaN && y.isNaN

mutual

/-- Lists are compared in order, maps by name, whatever their order. -/
def same : Value → Value → Bool
  | .text s, .text t => s == t
  | .list vs, .list ws => sameItems vs ws
  | .map fs, .map gs => fs.length == gs.length && sameFields fs gs
  | v, w =>
    match v.numeric?, w.numeric? with
    | some m, some n => m.same n
    | _, _ => false

def sameItems : List Value → List Value → Bool
  | [], [] => true
  | v :: vs, w :: ws => same v w && sameItems vs ws
  | _, _ => false

/-- Whether each field of the first list stands, with the same value, in the second. -/
def sameFields : List (String × Value) → List (String × Value) → Bool
  | [], _ => true
  | (name, v) :: fs, gs =>
    (match OrderedMap.lookup name gs with
      | some w => same v w
      | none => false) && sameFields fs gs

end

end Value

end Interchange
