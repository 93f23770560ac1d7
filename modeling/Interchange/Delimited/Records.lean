import Interchange.Text.Lines

/-!
# Records of delimited text

A dialect is the character between fields and the character around quoted ones. A field is written
between quotes when reading it back would change it otherwise: when it holds the delimiter, a quote
or a line break, or has blanks at an end. Each quote in it is doubled.

A line break ends a record and a delimiter ends a field, except between quotes, where a doubled
quote stands for one. Blanks at the ends of a field are trimmed unless they are quoted. A record
that holds nothing at all is no record. A mark that is absent separates or quotes nothing.
-/
namespace Interchange.Delimited

structure Marks where
  delimiter : Option Char
  quote : Option Char
deriving DecidableEq

/-- The character that a text names when it is that character alone. -/
def markOf (text : String) : Option Char :=
  match text.toList with
  | [c] => some c
  | _ => none

def Marks.ofTexts (delimiter quote : String) : Marks := ⟨markOf delimiter, markOf quote⟩

/-- The two formats of tables as text. -/
inductive Dialect where
  | comma
  | tab
deriving DecidableEq

namespace Dialect

def delimiter : Dialect → Char
  | .comma => ','
  | .tab => '\t'

def quote (_ : Dialect) : Char := '"'

def marks (dialect : Dialect) : Marks := ⟨some dialect.delimiter, some dialect.quote⟩

def formatName : Dialect → String
  | .comma => "csv"
  | .tab => "tsv"

end Dialect

/-- Whether a text occurs in another. -/
def occursIn (needle : List Char) : List Char → Bool
  | [] => needle.isEmpty
  | c :: cs => needle.isPrefixOf (c :: cs) || occursIn needle cs

/-- Every occurrence of a text doubled, from left to right. -/
def doubled (needle : List Char) (cs : List Char) : List Char :=
  match cs with
  | [] => []
  | c :: rest =>
    if _h : needle ≠ [] ∧ needle.isPrefixOf (c :: rest) then
      needle ++ needle ++ doubled needle ((c :: rest).drop needle.length)
    else c :: doubled needle rest
termination_by cs.length
decreasing_by
  · have := List.length_pos_iff.2 _h.1
    simp only [List.length_drop, List.length_cons]
    omega
  · simp

def needsQuotes (delimiter quote value : List Char) : Bool :=
  occursIn delimiter value || occursIn quote value || value.contains '\n' ||
    value.contains '\r' || value != Text.strip value

def quoteChars (delimiter quote value : List Char) : List Char :=
  if needsQuotes delimiter quote value then quote ++ doubled quote value ++ quote else value

def quoteField (delimiter quote value : String) : String :=
  String.ofList (quoteChars delimiter.toList quote.toList value.toList)

/-- A character of a field, and whether it stood between quotes. -/
structure Piece where
  char : Char
  quoted : Bool
deriving DecidableEq

def Piece.isMargin (p : Piece) : Bool := !p.quoted && Text.isBlank p.char

/-- The characters of a field between its margins. The pieces come last first. -/
def finishField (reversed : List Piece) : List Char :=
  ((reversed.dropWhile Piece.isMargin).reverse.dropWhile Piece.isMargin).map Piece.char

abbrev Fields := List (List Char)

structure Scanned where
  records : List Fields
  unterminated : Bool
deriving DecidableEq

namespace Scanned

/-- One more record in front, unless it is a single empty field that no quote has opened. -/
def push (record : Fields) (sawQuote : Bool) (rest : Scanned) : Scanned :=
  if record = [[]] ∧ !sawQuote then rest else { rest with records := record :: rest.records }

end Scanned

/-- What follows a line break that starts with the given character. -/
def afterBreak (c : Char) (cs : List Char) : List Char :=
  match cs with
  | '\n' :: rest => if c = '\r' then rest else cs
  | _ => cs

theorem afterBreak_length_lt (c : Char) (cs : List Char) :
    (afterBreak c cs).length < cs.length + 1 := by
  unfold afterBreak
  split
  · split <;> simp only [List.length_cons] <;> omega
  · simp

/-- Where a scan stands: between quotes or not, whether a quote was seen in this record, and the
pieces of the field and the fields of the record read so far, last first. -/
structure Position where
  inside : Bool
  sawQuote : Bool
  field : List Piece
  record : Fields
deriving DecidableEq

namespace Position

def start : Position := ⟨false, false, [], []⟩

def push (pos : Position) (c : Char) (quoted : Bool) : Position :=
  { pos with field := ⟨c, quoted⟩ :: pos.field }

def endField (pos : Position) : Position :=
  { pos with field := [], record := finishField pos.field :: pos.record }

/-- The fields of the record when it ends here. -/
def fields (pos : Position) : Fields := (finishField pos.field :: pos.record).reverse

def isStart (pos : Position) : Bool :=
  pos.field.isEmpty && pos.record.isEmpty && !pos.sawQuote

end Position

/-- The records from a position on. Without `splits`, line breaks end no record. -/
def scanFrom (marks : Marks) (splits : Bool) (pos : Position) (cs : List Char) : Scanned :=
  match cs with
  | [] =>
    if pos.isStart then ⟨[], pos.inside⟩ else .push pos.fields pos.sawQuote ⟨[], pos.inside⟩
  | c :: cs =>
    if pos.inside then
      if marks.quote = some c then
        match cs with
        | d :: rest =>
          if d = c then scanFrom marks splits (pos.push c true) rest
          else scanFrom marks splits { pos with inside := false } (d :: rest)
        | [] => scanFrom marks splits { pos with inside := false } []
      else scanFrom marks splits (pos.push c true) cs
    else if marks.quote = some c then
      scanFrom marks splits { pos with inside := true, sawQuote := true } cs
    else if marks.delimiter = some c then scanFrom marks splits pos.endField cs
    else if splits ∧ (c = '\r' ∨ c = '\n') then
      .push pos.fields pos.sawQuote (scanFrom marks splits .start (afterBreak c cs))
    else scanFrom marks splits (pos.push c false) cs
termination_by cs.length
decreasing_by
  all_goals simp only [List.length_cons, List.length_nil]
  all_goals first | omega | exact afterBreak_length_lt c cs

structure Records where
  records : List (List String)
  /-- Whether the text ends between quotes. -/
  unterminated : Bool
deriving DecidableEq

def scanRecords (marks : Marks) (text : String) (splits : Bool := true) : Records :=
  let scanned := scanFrom marks splits .start text.toList
  ⟨scanned.records.map (·.map String.ofList), scanned.unterminated⟩

/-- The fields of a text that is one record. -/
def splitFields (marks : Marks) (line : String) : List String :=
  match (scanRecords marks line false).records with
  | [] => [String.ofList (Text.strip line.toList)]
  | record :: _ => record

end Interchange.Delimited
