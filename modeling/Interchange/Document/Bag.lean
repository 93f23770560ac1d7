import Interchange.Document.Value

/-!
# Property bags

Named property values in the order in which the names were set. The typed look-ups give nothing when
the name is absent and when its value is of another kind. The names that the formats share are
listed first; one with a colon belongs to the domain before it.
-/
namespace Interchange.Key

def content : String := "content"

def level : String := "level"

def ordered : String := "ordered"

def start : String := "start"

def language : String := "language"

def url : String := "url"

def alt : String := "alt"

def resource : String := "resource"

def label : String := "label"

def header : String := "header"

def align : String := "style:align"

/-- A rule with this switch on stands for the end of a page. -/
def pageBreak : String := "layout:page_break"

def mathFormat : String := "math:format"

def mathSource : String := "math:source"

end Interchange.Key

namespace Interchange

open Number (Binary64)

abbrev Bag (τ : Type := String) := OrderedMap τ (Value τ)

namespace Bag

section Forms

variable {τ : Type} [DecidableEq τ]

/-- Sets a name to a JSON value, if that is a property value. -/
def set (bag : Bag τ) (name : τ) (value : Json τ) : Except ValueFault (Bag τ) :=
  (Value.ofJson value).map (bag.insert name)

/-- The members set one after the other. -/
def ofMembers (members : List (τ × Json τ)) : Except ValueFault (Bag τ) :=
  members.foldlM (fun bag (name, value) => set bag name value) OrderedMap.empty

end Forms

def toJson {τ : Type} (bag : Bag τ) : Json τ := .object (Value.toJsonFields bag.entries)

def toValue (bag : Bag) : Value := .map bag.entries

def text? (bag : Bag) (name : String) : Option String :=
  match bag.get? name with
  | some (.text s) => some s
  | _ => none

def int? (bag : Bag) (name : String) : Option Int :=
  match bag.get? name with
  | some (.int n) => some n.toInt
  | _ => none

def float? (bag : Bag) (name : String) : Option Binary64 :=
  match bag.get? name with
  | some (.float x) => some x
  | _ => none

def bool? (bag : Bag) (name : String) : Option Bool :=
  match bag.get? name with
  | some (.bool b) => some b
  | _ => none

def list? (bag : Bag) (name : String) : Option (List Value) :=
  match bag.get? name with
  | some (.list items) => some items
  | _ => none

def map? (bag : Bag) (name : String) : Option (List (String × Value)) :=
  match bag.get? name with
  | some (.map fields) => some fields
  | _ => none

/-- The text under a name, empty when there is none. -/
def textOr (bag : Bag) (name : String) (default : String := "") : String :=
  (bag.text? name).getD default

/-- Whether a switch is set. -/
def isOn (bag : Bag) (name : String) : Bool := bag.bool? name == some true

/-- The text under a name unless it is empty. -/
def filled? (bag : Bag) (name : String) : Option String :=
  (bag.text? name).filter (· ≠ "")

/-- The same names with the same values, in whatever order. -/
def same (left right : Bag) : Bool := left.toValue.same right.toValue

def insertText (bag : Bag) (name text : String) : Bag := bag.insert name (.text text)

def insertNat (bag : Bag) (name : String) (n : Nat) : Bag :=
  bag.insert name (.int (Int64.ofNat n))

end Bag

end Interchange
