/-!
# Blanks, lines and paragraphs

The blanks are the characters that count as white space in every script: text is trimmed of them and
split into words at them. A text falls into lines at any of the characters that break a line; a
carriage return and the line feed after it break it once, and text after the last break is a line of
its own only when there is some. Blank lines separate paragraphs, form feeds separate pages, and a
paragraph is the words of its lines joined by single spaces.
-/
namespace Interchange.Text

def isBlank (c : Char) : Bool :=
  let n := c.toNat
  (0x09 ≤ n && n ≤ 0x0d) || (0x1c ≤ n && n ≤ 0x20) || n == 0x85 || n == 0xa0 || n == 0x1680 ||
    (0x2000 ≤ n && n ≤ 0x200a) || n == 0x2028 || n == 0x2029 || n == 0x202f || n == 0x205f ||
    n == 0x3000

def stripStart (cs : List Char) : List Char := cs.dropWhile isBlank

def stripEnd (cs : List Char) : List Char := (cs.reverse.dropWhile isBlank).reverse

def strip (cs : List Char) : List Char := stripEnd (stripStart cs)

def isBlankLine (cs : List Char) : Bool := cs.all isBlank

/-- The runs of characters between blanks. -/
def words : List Char → List (List Char)
  | [] => []
  | c :: cs =>
    if isBlank c then words cs
    else match cs, words cs with
      | d :: _, w :: ws => if isBlank d then [c] :: w :: ws else (c :: w) :: ws
      | _, ws => [c] :: ws

@[simp] theorem words_nil : words [] = [] := by
  rw [words.eq_def]

/-- The words with one space between them. -/
def collapse (cs : List Char) : List Char := List.intercalate [' '] (words cs)

def isLineBreak (c : Char) : Bool :=
  let n := c.toNat
  (0x0a ≤ n && n ≤ 0x0d) || (0x1c ≤ n && n ≤ 0x1e) || n == 0x85 || n == 0x2028 || n == 0x2029

/-- A line break is blank. -/
theorem isBlank_of_isLineBreak (c : Char) (h : isLineBreak c) : isBlank c := by
  simp only [isLineBreak, isBlank, Bool.or_eq_true, Bool.and_eq_true, decide_eq_true_eq,
    beq_iff_eq] at h ⊢
  omega

def splitLines : List Char → List (List Char)
  | [] => []
  | '\r' :: '\n' :: cs => [] :: splitLines cs
  | c :: cs =>
    if isLineBreak c then [] :: splitLines cs
    else match splitLines cs with
      | [] => [[c]]
      | line :: lines => (c :: line) :: lines

@[simp] theorem splitLines_nil : splitLines [] = [] := by
  rw [splitLines]

/-- The pieces between the occurrences of a character, one more than there are of those. -/
def splitAt (separator : Char) : List Char → List (List Char)
  | [] => [[]]
  | c :: cs =>
    if c = separator then [] :: splitAt separator cs
    else match splitAt separator cs with
      | [] => [[c]]
      | piece :: pieces => (c :: piece) :: pieces

theorem splitAt_ne_nil (separator : Char) (cs : List Char) : splitAt separator cs ≠ [] := by
  cases cs with
  | nil => simp [splitAt]
  | cons c cs =>
    simp only [splitAt]
    split
    · simp
    · split <;> simp

/-- The pieces joined by the separator are the text. -/
@[simp] theorem intercalate_splitAt (separator : Char) (cs : List Char) :
    List.intercalate [separator] (splitAt separator cs) = cs := by
  induction cs with
  | nil => simp [splitAt, List.intercalate]
  | cons c cs ih =>
    simp only [splitAt]
    cases h : splitAt separator cs with
    | nil => exact absurd h (splitAt_ne_nil separator cs)
    | cons piece pieces =>
      rw [h] at ih
      split
      · next hc =>
        subst hc
        cases pieces <;> simp_all [List.intercalate, List.intersperse]
      · cases pieces <;> simp_all [List.intercalate, List.intersperse]

/-- The runs of lines between those that satisfy `separates`. -/
def groupLines (separates : List Char → Bool) :
    List (List Char) → List (List (List Char))
  | [] => []
  | line :: lines =>
    if separates line then groupLines separates lines
    else match lines, groupLines separates lines with
      | next :: _, group :: groups =>
        if separates next then [line] :: group :: groups else (line :: group) :: groups
      | _, groups => [line] :: groups

@[simp] theorem groupLines_nil (separates : List Char → Bool) : groupLines separates [] = [] := by
  rw [groupLines.eq_def]

def paragraphs (cs : List Char) : List (List Char) :=
  (groupLines isBlankLine (splitLines cs)).map fun lines =>
    collapse (List.intercalate [' '] lines)

def formFeed : Char := Char.ofNat 0x0c

def pages (cs : List Char) : List (List (List Char)) :=
  (splitAt formFeed cs).map paragraphs

end Interchange.Text
