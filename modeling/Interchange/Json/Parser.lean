import Interchange.Json.Basic
import Interchange.Number.Numeral

/-!
# Reading JSON

A reader that stops at the first fault and tells what it expected there and where it stood. The
names of the values without digits, `NaN` and the infinities, are accepted, and so is the escape of
a half of a pair that stands alone. Of several members with one name the first gives the place and
the last the value.

Every step returns the characters it leaves. The fuel of the recursion is the length of the text,
which no nesting exceeds.
-/
namespace Interchange.Json

open Number (Binary64 digitValue? isDigit)

/-- What was wrong. -/
inductive Fault where
  | expectingValue
  | expectingName
  | expectingColon
  | expectingComma
  | unterminatedText
  | controlCharacter
  | badEscape
  | badCodeEscape
  | extraData
  | byteOrderMark
  | tooManyDigits (digits : Nat)
deriving DecidableEq

/-- A fault, with the characters from where it was found. -/
structure Failure where
  fault : Fault
  rest : List Char
deriving DecidableEq

def isSpace (c : Char) : Bool := c == ' ' || c == '\t' || c == '\n' || c == '\r'

def skipSpace (cs : List Char) : List Char := cs.dropWhile isSpace

def hexValue? (c : Char) : Option Nat :=
  if '0' ≤ c ∧ c ≤ '9' then some (c.toNat - '0'.toNat)
  else if 'a' ≤ c ∧ c ≤ 'f' then some (c.toNat - 'a'.toNat + 10)
  else if 'A' ≤ c ∧ c ≤ 'F' then some (c.toNat - 'A'.toNat + 10)
  else none

/-- The code of four hexadecimal digits. -/
def code? : List Char → Option Nat
  | [a, b, c, d] => do
    let a ← hexValue? a
    let b ← hexValue? b
    let c ← hexValue? c
    let d ← hexValue? d
    some (((a * 16 + b) * 16 + c) * 16 + d)
  | _ => none

def simpleEscape? : Char → Option Char
  | '"' => some '"'
  | '\\' => some '\\'
  | '/' => some '/'
  | 'b' => some (Char.ofNat 8)
  | 'f' => some (Char.ofNat 12)
  | 'n' => some '\n'
  | 'r' => some '\r'
  | 't' => some '\t'
  | _ => none

def isHighHalf (n : Nat) : Bool := 0xd800 ≤ n && n < 0xdc00

def isLowHalf (n : Nat) : Bool := 0xdc00 ≤ n && n < 0xe000

def joinHalves (high low : Nat) : Char :=
  Char.ofNat (0x10000 + (high - 0xd800) * 0x400 + (low - 0xdc00))

/-- Four digits after the letter of a code escape; at least one more character has to follow. -/
def escapeCode (cs : List Char) : Except Failure (Nat × List Char) :=
  let after := cs.drop 1
  if (after.drop 4).isEmpty then .error ⟨.badCodeEscape, cs⟩
  else match code? (after.take 4) with
    | some n => .ok (n, after.drop 4)
    | none => .error ⟨.badCodeEscape, cs⟩

/-- The point of an escape whose backslash has been read; `whole` starts at the backslash and
`start` at the quote before it. -/
def escape (start whole : List Char) : List Char → Except Failure (Point × List Char)
  | [] => .error ⟨.unterminatedText, start⟩
  | 'u' :: after =>
    match escapeCode ('u' :: after) with
    | .error e => .error e
    | .ok (high, rest) =>
      match rest with
      | '\\' :: 'u' :: second =>
        if isHighHalf high && !(second.drop 4).isEmpty then
          match escapeCode ('u' :: second) with
          | .error e => .error e
          | .ok (low, after) =>
            if isLowHalf low then .ok (.char (joinHalves high low), after)
            else .ok (.ofCode high, rest)
        else .ok (.ofCode high, rest)
      | _ => .ok (.ofCode high, rest)
  | c :: rest =>
    match simpleEscape? c with
    | some d => .ok (.char d, rest)
    | none => .error ⟨.badEscape, whole⟩

theorem escapeCode_shorter {cs rest : List Char} {n : Nat} (h : escapeCode cs = .ok (n, rest)) :
    rest.length < cs.length := by
  simp only [escapeCode] at h
  split at h
  · simp at h
  · next hne =>
    split at h
    · simp only [Except.ok.injEq, Prod.mk.injEq] at h
      obtain ⟨-, rfl⟩ := h
      simp only [List.isEmpty_iff, List.drop_eq_nil_iff, Nat.not_le, List.length_drop] at hne ⊢
      omega
    · simp at h

theorem escape_shorter {start whole cs rest : List Char} {p : Point}
    (h : escape start whole cs = .ok (p, rest)) : rest.length < cs.length := by
  simp only [escape] at h
  split at h
  · simp at h
  · next after =>
    split at h
    · simp at h
    · next high r hr =>
      have hlt := escapeCode_shorter hr
      split at h
      · next second =>
        split at h
        · split at h
          · simp at h
          · next low after' hl =>
            have := escapeCode_shorter hl
            split at h <;>
              (simp only [Except.ok.injEq, Prod.mk.injEq] at h; obtain ⟨-, rfl⟩ := h) <;>
              simp only [List.length_cons] at * <;> omega
        · simp only [Except.ok.injEq, Prod.mk.injEq] at h
          obtain ⟨-, rfl⟩ := h
          exact hlt
      · simp only [Except.ok.injEq, Prod.mk.injEq] at h
        obtain ⟨-, rfl⟩ := h
        exact hlt
  · split at h
    · simp only [Except.ok.injEq, Prod.mk.injEq] at h
      obtain ⟨-, rfl⟩ := h
      simp
    · simp at h

/-- The points up to the closing quote, in reverse onto `read`. -/
def parseText (start : List Char) (read : List Point) (cs : List Char) :
    Except Failure (List Point × List Char) :=
  match cs with
  | [] => .error ⟨.unterminatedText, start⟩
  | '"' :: rest => .ok (read.reverse, rest)
  | '\\' :: rest =>
    match _h : escape start ('\\' :: rest) rest with
    | .error e => .error e
    | .ok (p, after) => parseText start (p :: read) after
  | c :: rest =>
    if c.toNat ≤ 0x1f then .error ⟨.controlCharacter, c :: rest⟩
    else parseText start (.char c :: read) rest
termination_by cs.length
decreasing_by
  · have := escape_shorter _h
    simp only [List.length_cons]
    omega
  · simp

/-- The digits of a whole number: a zero stands alone. -/
def wholeDigits : List Char → List Char × List Char
  | '0' :: rest => (['0'], rest)
  | cs => (cs.takeWhile isDigit, cs.dropWhile isDigit)

/-- A point with digits after it. -/
def fractionDigits : List Char → List Char × List Char
  | '.' :: d :: rest =>
    if isDigit d then (d :: rest.takeWhile isDigit, rest.dropWhile isDigit) else ([], '.' :: d :: rest)
  | cs => ([], cs)

/-- A power of ten; without digits the mark is not part of the number. -/
def powerDigits : List Char → Option Int × List Char
  | mark :: rest =>
    if mark = 'e' ∨ mark = 'E' then
      let (down, body) := match rest with
        | '-' :: body => (true, body)
        | '+' :: body => (false, body)
        | body => (false, body)
      let ds := body.takeWhile isDigit
      if ds.isEmpty then (none, mark :: rest)
      else (some (Number.signed down (Number.ofDigits ds)), body.dropWhile isDigit)
    else (none, mark :: rest)
  | [] => (none, [])

/-- A number from its sign on; `cs` starts after the sign and `start` at it. -/
def parseNumber (start : List Char) (negative : Bool) (cs : List Char) :
    Except Failure (Json Wide × List Char) :=
  match wholeDigits cs with
  | ([], _) => .error ⟨.expectingValue, start⟩
  | (whole, rest) =>
    let (part, rest) := fractionDigits rest
    let (power, rest) := powerDigits rest
    if part.isEmpty && power.isNone then
      if Number.digitLimit < whole.length then .error ⟨.tooManyDigits whole.length, start⟩
      else .ok (.int (Number.signed negative (Number.ofDigits whole)), rest)
    else
      let value := Binary64.ofDecimal negative (Number.ofDigits (whole ++ part))
        (power.getD 0 - part.length)
      .ok (.float value, rest)

/-- A value that is spelled out, and what follows it. -/
def literal? (cs : List Char) : Option (Json Wide × List Char) :=
  let after (word : String) (value : Json Wide) : Option (Json Wide × List Char) :=
    if word.toList.isPrefixOf cs then some (value, cs.drop word.length) else none
  after "null" .null <|> after "true" (.bool true) <|> after "false" (.bool false) <|>
    after "NaN" (.float .nan) <|> after "Infinity" (.float (.infinity false)) <|>
    after "-Infinity" (.float (.infinity true))

mutual

def parseValue : Nat → List Char → Except Failure (Json Wide × List Char)
  | 0, cs => .error ⟨.expectingValue, cs⟩
  | fuel + 1, cs =>
    match cs with
    | '"' :: rest => (parseText cs [] rest).map fun (points, rest) => (.text ⟨points⟩, rest)
    | '{' :: rest =>
      match skipSpace rest with
      | '}' :: rest => .ok (.object [], rest)
      | rest => (parseMembers fuel [] rest).map fun (ms, rest) => (.object ms, rest)
    | '[' :: rest =>
      match skipSpace rest with
      | ']' :: rest => .ok (.list [], rest)
      | rest => (parseItems fuel [] rest).map fun (items, rest) => (.list items, rest)
    | cs =>
      match literal? cs with
      | some found => .ok found
      | none =>
        match cs with
        | '-' :: rest => parseNumber cs true rest
        | _ => parseNumber cs false cs

/-- The members up to the closing brace, after those already read. -/
def parseMembers : Nat → List (Wide × Json Wide) → List Char →
    Except Failure (List (Wide × Json Wide) × List Char)
  | 0, _, cs => .error ⟨.expectingName, cs⟩
  | fuel + 1, read, cs =>
    match cs with
    | '"' :: rest => do
      let (name, rest) ← parseText cs [] rest
      match skipSpace rest with
      | ':' :: rest => do
        let (value, rest) ← parseValue fuel (skipSpace rest)
        let read := setMember read ⟨name⟩ value
        match skipSpace rest with
        | '}' :: rest => .ok (read, rest)
        | ',' :: rest => parseMembers fuel read (skipSpace rest)
        | rest => .error ⟨.expectingComma, rest⟩
      | rest => .error ⟨.expectingColon, rest⟩
    | cs => .error ⟨.expectingName, cs⟩

/-- The items up to the closing bracket, in reverse onto those already read. -/
def parseItems : Nat → List (Json Wide) → List Char →
    Except Failure (List (Json Wide) × List Char)
  | 0, _, cs => .error ⟨.expectingValue, cs⟩
  | fuel + 1, read, cs => do
    let (value, rest) ← parseValue fuel cs
    match skipSpace rest with
    | ']' :: rest => .ok ((value :: read).reverse, rest)
    | ',' :: rest => parseItems fuel (value :: read) (skipSpace rest)
    | rest => .error ⟨.expectingComma, rest⟩

end

/-- The value that a whole text stands for. -/
def parseChars (cs : List Char) : Except Failure (Json Wide) :=
  match cs with
  | c :: _ =>
    if c.toNat = 0xfeff then .error ⟨.byteOrderMark, cs⟩
    else do
      let (value, rest) ← parseValue (cs.length + 1) (skipSpace cs)
      match skipSpace rest with
      | [] => .ok value
      | rest => .error ⟨.extraData, rest⟩
  | [] => .error ⟨.expectingValue, []⟩

def parse (text : String) : Except Failure (Json Wide) := parseChars text.toList

def Fault.label : Fault → String
  | .expectingValue => "Expecting value"
  | .expectingName => "Expecting property name enclosed in double quotes"
  | .expectingColon => "Expecting ':' delimiter"
  | .expectingComma => "Expecting ',' delimiter"
  | .unterminatedText => "Unterminated string starting at"
  | .controlCharacter => "Invalid control character at"
  | .badEscape => "Invalid \\escape"
  | .badCodeEscape => "Invalid \\uXXXX escape"
  | .extraData => "Extra data"
  | .byteOrderMark => "Unexpected UTF-8 BOM (decode using utf-8-sig)"
  | .tooManyDigits n =>
    "Exceeds the limit (" ++ Number.natText Number.digitLimit ++
      " digits) for integer string conversion: value has " ++ Number.natText n ++
      " digits; use sys.set_int_max_str_digits() to increase the limit"

/-- The message of a failure in a text: the fault and, but for a number that is too long, its
line, column and offset. -/
def Failure.message (text : String) (failure : Failure) : String :=
  match failure.fault with
  | .tooManyDigits _ => failure.fault.label
  | fault =>
    let cs := text.toList
    let offset := cs.length - failure.rest.length
    let before := cs.take offset
    let line := before.count '\n' + 1
    let column := (before.reverse.takeWhile (· != '\n')).length + 1
    fault.label ++ ": line " ++ Number.natText line ++ " column " ++ Number.natText column ++
      " (char " ++ Number.natText offset ++ ")"

end Interchange.Json
