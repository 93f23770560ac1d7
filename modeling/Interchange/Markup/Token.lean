import Interchange.Text.Lines

/-!
# Tokens of markup

A text is cut into tags, pieces of text and what stands aside of the content: comments,
instructions and the document type. A reference stands for one character. Text that is not well
formed has no tokens.
-/
namespace Interchange.Markup

inductive Token where
  | start (name : List Char) (attributes : List (List Char × List Char)) (empty : Bool)
  | stop (name : List Char)
  /-- Characters; those that are `plain` were written as themselves. -/
  | text (content : List Char) (plain : Bool)
  | aside
  | documentType
deriving DecidableEq

def isSpace (c : Char) : Bool := c == ' ' || c == '\t' || c == '\n' || c == '\r'

/-- The characters that a document may hold. -/
def isAllowed (c : Char) : Bool :=
  let n := c.toNat
  n == 9 || n == 10 || n == 13 || (0x20 ≤ n && n ≤ 0xd7ff) || (0xe000 ≤ n && n ≤ 0xfffd) || 0x10000 ≤ n

def nameStarts : List (Nat × Nat) := [
  (0x3a, 0x3a), (0x41, 0x5a), (0x5f, 0x5f), (0x61, 0x7a), (0xc0, 0xd6), (0xd8, 0xf6), (0xf8, 0x2ff),
  (0x370, 0x37d), (0x37f, 0x1fff), (0x200c, 0x200d), (0x2070, 0x218f), (0x2c00, 0x2fef),
  (0x3001, 0xd7ff), (0xf900, 0xfdcf), (0xfdf0, 0xfffd), (0x10000, 0xeffff)]

def nameFollowers : List (Nat × Nat) :=
  [(0x2d, 0x2e), (0x30, 0x39), (0xb7, 0xb7), (0x300, 0x36f), (0x203f, 0x2040)]

def isAmong (ranges : List (Nat × Nat)) (c : Char) : Bool :=
  ranges.any fun range => range.1 ≤ c.toNat && c.toNat ≤ range.2

def isNameStart (c : Char) : Bool := isAmong nameStarts c

def isNameChar (c : Char) : Bool := isNameStart c || isAmong nameFollowers c

/-- Line breaks of every kind as line feeds. -/
def normalLines : List Char → List Char
  | [] => []
  | '\r' :: '\n' :: cs => '\n' :: normalLines cs
  | c :: cs => (if c = '\r' then '\n' else c) :: normalLines cs

def skipSpace (cs : List Char) : List Char := cs.dropWhile isSpace

/-- What stands before the first occurrence of a mark, and what follows it. -/
def splitAtMark? (mark : List Char) : List Char → Option (List Char × List Char)
  | [] => if mark.isEmpty then some ([], []) else none
  | c :: cs =>
    if mark.isPrefixOf (c :: cs) then some ([], (c :: cs).drop mark.length)
    else (splitAtMark? mark cs).map fun (before, after) => (c :: before, after)

def name? : List Char → Option (List Char × List Char)
  | [] => none
  | c :: cs =>
    if isNameStart c then some (c :: cs.takeWhile isNameChar, cs.dropWhile isNameChar) else none

def digit? (base : Nat) (c : Char) : Option Nat :=
  let n := c.toNat
  let value :=
    if 0x30 ≤ n ∧ n ≤ 0x39 then n - 0x30
    else if 0x41 ≤ n ∧ n ≤ 0x46 then n - 0x41 + 10
    else if 0x61 ≤ n ∧ n ≤ 0x66 then n - 0x61 + 10
    else base
  if value < base then some value else none

def number? (base : Nat) (cs : List Char) : Option Nat :=
  if cs.isEmpty then none
  else cs.foldlM (fun n c => (digit? base c).map (n * base + ·)) 0

def characterOf? (n : Nat) : Option Char :=
  if n < 0x110000 ∧ isAllowed (Char.ofNat n) ∧ (Char.ofNat n).toNat = n then some (Char.ofNat n) else none

/-- The character that a reference stands for. -/
def reference? : List Char → Option Char
  | '#' :: 'x' :: digits => number? 16 digits >>= characterOf?
  | '#' :: digits => number? 10 digits >>= characterOf?
  | cs =>
    if cs = "lt".toList then some '<'
    else if cs = "gt".toList then some '>'
    else if cs = "amp".toList then some '&'
    else if cs = "quot".toList then some '"'
    else if cs = "apos".toList then some '\''
    else none

/-- A reference and the characters after it, from behind the ampersand on. -/
def afterReference? (piece : List Char) : Option (Char × List Char) := do
  let (inside, after) ← splitAtMark? [';'] piece
  let c ← reference? inside
  some (c, after)

/-- The value of an attribute: blanks are spaces, references their characters. -/
def attributeValue? (body : List Char) : Option (List Char) :=
  let plain (cs : List Char) : List Char := cs.map fun c => if isSpace c then ' ' else c
  match Text.splitAt '&' body with
  | [] => some []
  | first :: pieces => do
    let parts ← pieces.mapM afterReference?
    some (plain first ++ parts.flatMap fun (c, after) => c :: plain after)

/-- The tokens of a piece of text between tags. -/
def textTokens? (body : List Char) : Option (List Token) :=
  let plain (cs : List Char) : List Token := if cs.isEmpty then [] else [.text cs true]
  if (splitAtMark? "]]>".toList body).isSome then none
  else match Text.splitAt '&' body with
    | [] => some []
    | first :: pieces => do
      let parts ← pieces.mapM afterReference?
      some (plain first ++ parts.flatMap fun (c, after) => .text [c] false :: plain after)

/-- The attributes up to the end of a tag, whether the tag is closed at once, and what follows.
Attributes are set off by blanks. -/
def attributes? : Nat → List Char → Option (List (List Char × List Char) × Bool × List Char)
  | 0, _ => none
  | fuel + 1, cs =>
    match skipSpace cs with
    | '>' :: rest => some ([], false, rest)
    | '/' :: '>' :: rest => some ([], true, rest)
    | inside => do
      let _ ← if inside.length < cs.length then some () else none
      let (name, rest) ← name? inside
      match skipSpace rest with
      | '=' :: rest =>
        match skipSpace rest with
        | quote :: rest => do
          let _ ← if quote = '"' ∨ quote = '\'' then some () else none
          let (body, rest) ← splitAtMark? [quote] rest
          let _ ← if body.contains '<' then none else some ()
          let value ← attributeValue? body
          let (others, empty, rest) ← attributes? fuel rest
          some ((name, value) :: others, empty, rest)
        | [] => none
      | _ => none

def startTag? (cs : List Char) : Option (Token × List Char) := do
  let (name, rest) ← name? cs
  let (attributes, empty, rest) ← attributes? (rest.length + 1) rest
  some (.start name attributes empty, rest)

def stopTag? (cs : List Char) : Option (Token × List Char) := do
  let (name, rest) ← name? cs
  match skipSpace rest with
  | '>' :: rest => some (.stop name, rest)
  | _ => none

/-- A comment, in which two dashes stand only at the end. -/
def comment? (cs : List Char) : Option (Token × List Char) := do
  let (_, rest) ← splitAtMark? "--".toList cs
  match rest with
  | '>' :: rest => some (.aside, rest)
  | _ => none

/-- An instruction; the name of the declaration at the start of a document is reserved. -/
def instruction? (cs : List Char) : Option (Token × List Char) := do
  let (name, body) ← name? cs
  let _ ← if name = "xml".toList then none else some ()
  let (inside, rest) ← splitAtMark? "?>".toList body
  match inside with
  | [] => some (.aside, rest)
  | c :: _ => if isSpace c then some (.aside, rest) else none

/-- The rest of a document type, whose inner part stands in brackets. -/
def documentType? (cs : List Char) : Option (Token × List Char) := do
  let head := cs.takeWhile fun c => c != '[' && c != '>'
  match cs.drop head.length with
  | '>' :: rest => some (.documentType, rest)
  | _ :: inner => do
    let (_, rest) ← splitAtMark? [']'] inner
    match skipSpace rest with
    | '>' :: rest => some (.documentType, rest)
    | _ => none
  | [] => none

/-- What follows an opening angle bracket. -/
def markup? (cs : List Char) : Option (Token × List Char) :=
  match cs with
  | '/' :: rest => stopTag? rest
  | '?' :: rest => instruction? rest
  | '!' :: rest =>
    if "--".toList.isPrefixOf rest then comment? (rest.drop 2)
    else if "[CDATA[".toList.isPrefixOf rest then
      (splitAtMark? "]]>".toList (rest.drop 7)).map fun (body, after) => (.text body false, after)
    else if "DOCTYPE".toList.isPrefixOf rest then documentType? (rest.drop 7)
    else none
  | cs => startTag? cs

def tokensFrom? : Nat → List Char → Option (List Token)
  | 0, _ => none
  | _ + 1, [] => some []
  | fuel + 1, '<' :: cs => do
    let (token, rest) ← markup? cs
    let tokens ← tokensFrom? fuel rest
    some (token :: tokens)
  | fuel + 1, cs => do
    let found ← textTokens? (cs.takeWhile (· ≠ '<'))
    let tokens ← tokensFrom? fuel (cs.dropWhile (· ≠ '<'))
    some (found ++ tokens)

/-- The text after the declaration that may stand at the start. -/
def afterDeclaration? (cs : List Char) : Option (List Char) :=
  match cs with
  | '<' :: '?' :: 'x' :: 'm' :: 'l' :: c :: rest =>
    if isSpace c then (splitAtMark? "?>".toList rest).map (·.2) else some cs
  | _ => some cs

def tokens? (cs : List Char) : Option (List Token) :=
  if cs.all isAllowed then do
    let rest ← afterDeclaration? (normalLines cs)
    tokensFrom? (rest.length + 1) rest
  else none

end Interchange.Markup
