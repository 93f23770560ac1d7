import Interchange.Number.Binary64
import Interchange.Number.Shortest
import Interchange.Text.Quoted

/-!
# JSON values

Whole numbers of any size are kept apart from floating point numbers, and the members of an object
keep their order. Setting a member that is there already keeps its place. In messages texts are
quoted, and the switches and the absent value have a capital. The texts in a value are of either
sort; those that are read are wide.

A value is written on one line, or with one item on a line and an indentation for each level. An
empty list or object is written without a line of its own. Either only the quote, the backslash and
the controls are escaped, or every character outside printable ASCII.
-/
namespace Interchange

open Number (Binary64)

inductive Json (τ : Type := String) where
  | null
  | bool (value : Bool)
  | int (value : Int)
  | float (value : Binary64)
  | text (value : τ)
  | list (items : List (Json τ))
  | object (members : List (τ × Json τ))
deriving Inhabited

namespace Json

variable {τ : Type}

section Members

variable [DecidableEq τ]

/-- Members with one more, in its old place when the name is there already. -/
def setMember (members : List (τ × Json τ)) (name : τ) (value : Json τ) : List (τ × Json τ) :=
  match members with
  | [] => [(name, value)]
  | (key, old) :: rest =>
    if key = name then (key, value) :: rest else (key, old) :: setMember rest name value

def member? (members : List (τ × Json τ)) (name : τ) : Option (Json τ) :=
  (members.find? (·.1 = name)).map (·.2)

/-- The member of an object; an absent one is null. -/
def member (members : List (τ × Json τ)) (name : τ) : Json τ :=
  (member? members name).getD .null

theorem member?_cons (key : τ) (value : Json τ) (rest : List (τ × Json τ)) (name : τ) :
    member? ((key, value) :: rest) name = if key = name then some value else member? rest name := by
  by_cases h : key = name <;> simp [member?, h]

theorem member_cons (key : τ) (value : Json τ) (rest : List (τ × Json τ)) (name : τ) :
    member ((key, value) :: rest) name = if key = name then value else member rest name := by
  rw [member, member?_cons]
  split <;> rfl

end Members

/-- Whether a value counts as set where any kind of value may stand for a switch. -/
def isTruthy [Textual τ] [DecidableEq τ] : Json τ → Bool
  | .null => false
  | .bool b => b
  | .int n => n != 0
  | .float x => !x.isZero
  | .text s => s ≠ Textual.empty
  | .list items => !items.isEmpty
  | .object members => !members.isEmpty

/-- The name of a value's kind in messages. -/
def kindName : Json τ → String
  | .null => "NoneType"
  | .bool _ => "bool"
  | .int _ => "int"
  | .float _ => "float"
  | .text _ => "str"
  | .list _ => "list"
  | .object _ => "dict"

end Json

end Interchange

namespace Interchange.Json

variable {τ : Type} [Textual τ]

mutual

def shown : Json τ → String
  | .null => "None"
  | .bool b => if b then "True" else "False"
  | .int n => Number.intText n
  | .float x => Number.FloatFormat.display.render x
  | .text s => Text.quoted s
  | .list items => "[" ++ ", ".intercalate (shownItems items) ++ "]"
  | .object members => "\x7b" ++ ", ".intercalate (shownMembers members) ++ "\x7d"

def shownItems : List (Json τ) → List String
  | [] => []
  | item :: items => shown item :: shownItems items

def shownMembers : List (τ × Json τ) → List String
  | [] => []
  | (name, value) :: members => (Text.quoted name ++ ": " ++ shown value) :: shownMembers members

end

structure Style where
  indent : Option (List Char)
  asciiOnly : Bool

def codeUnit (n : Nat) : List Char := '\\' :: 'u' :: Text.hexDigits 4 n

/-- A character beyond the first plane is escaped as its two halves. -/
def codeUnits (c : Char) : List Char :=
  let n := c.toNat
  if n < 0x10000 then codeUnit n
  else codeUnit (0xd800 + (n - 0x10000) / 0x400) ++ codeUnit (0xdc00 + (n - 0x10000) % 0x400)

def printChar (asciiOnly : Bool) (c : Char) : List Char :=
  if c = '"' ∨ c = '\\' then ['\\', c]
  else if c = '\n' then ['\\', 'n']
  else if c = '\r' then ['\\', 'r']
  else if c = '\t' then ['\\', 't']
  else if c.toNat = 8 then ['\\', 'b']
  else if c.toNat = 12 then ['\\', 'f']
  else if c.toNat < 0x20 then codeUnit c.toNat
  else if asciiOnly ∧ 0x7f ≤ c.toNat then codeUnits c
  else [c]

/-- Half of a pair is escaped or stands for itself. -/
def printPoint (asciiOnly : Bool) : Point → List Point
  | .char c => (printChar asciiOnly c).map .char
  | .half n => if asciiOnly then (codeUnit (0xd800 + n)).map .char else [.half n]

def printText (asciiOnly : Bool) (text : τ) : List Point :=
  .char '"' :: (Textual.points text).flatMap (printPoint asciiOnly) ++ [.char '"']

/-- What starts an item at a level of nesting. -/
def Style.newLine (style : Style) (level : Nat) : List Char :=
  match style.indent with
  | none => []
  | some unit => '\n' :: (List.replicate level unit).flatten

/-- Pieces between brackets, each on a line of its own where there is an indentation; `letter` gives
what stands for a character. -/
def Style.enclose {α : Type} (letter : Char → α) (style : Style) (level : Nat) (left right : Char)
    (pieces : List (List α)) : List α :=
  if pieces.isEmpty then [letter left, letter right]
  else
    let between := match style.indent with
      | none => [',', ' ']
      | some _ => ',' :: style.newLine (level + 1)
    letter left :: (style.newLine (level + 1)).map letter ++
      List.intercalate (between.map letter) pieces ++ (style.newLine level).map letter ++
        [letter right]

mutual

def printValue (style : Style) (level : Nat) : Json τ → List Point
  | .null => "null".toList.map .char
  | .bool b => (if b then "true".toList else "false".toList).map .char
  | .int n => (Number.intDigits n).map .char
  | .float x => (Number.FloatFormat.document.render x).toList.map .char
  | .text s => printText style.asciiOnly s
  | .list items => style.enclose .char level '[' ']' (printItems style (level + 1) items)
  | .object members =>
    style.enclose .char level '\x7b' '\x7d' (printMembers style (level + 1) members)

def printItems (style : Style) (level : Nat) : List (Json τ) → List (List Point)
  | [] => []
  | item :: items => printValue style level item :: printItems style level items

def printMembers (style : Style) (level : Nat) : List (τ × Json τ) → List (List Point)
  | [] => []
  | (name, value) :: members =>
    (printText style.asciiOnly name ++ .char ':' :: .char ' ' :: printValue style level value) ::
      printMembers style level members

end

def print (style : Style) (value : Json τ) : List Point := printValue style 0 value

end Interchange.Json
