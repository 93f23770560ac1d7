import Interchange.Document.Bag
import Interchange.Document.Builders
import Interchange.Notice
import Interchange.Word.Library.Content
import Interchange.Word.Library.Values

/-!
# Compositions

What is put into a package when a document is written: blocks of runs, footnotes, core properties
and the layout of the pages, which is the size of the page and its margins. A composition is laid
out as parts afterwards.
-/
namespace Interchange.Word

inductive PageMeasure where
  | pageWidth
  | pageHeight
  | leftMargin
  | rightMargin
  | topMargin
  | bottomMargin
deriving DecidableEq

namespace PageMeasure

def all : List PageMeasure :=
  [.pageWidth, .pageHeight, .leftMargin, .rightMargin, .topMargin, .bottomMargin]

def name : PageMeasure → String
  | .pageWidth => "page_width"
  | .pageHeight => "page_height"
  | .leftMargin => "left_margin"
  | .rightMargin => "right_margin"
  | .topMargin => "top_margin"
  | .bottomMargin => "bottom_margin"

/-- Only the margins at top and bottom may be negative: the text then runs into the header. -/
def isSigned : PageMeasure → Bool
  | .topMargin | .bottomMargin => true
  | _ => false

/-- Whether a length can be stored. -/
def accepts (measure : PageMeasure) (length : Int) : Bool :=
  if measure.isSigned then Int32.minValue.toInt ≤ length && length ≤ Int32.maxValue.toInt
  else 0 ≤ length && length.toNat < UInt64.size

end PageMeasure

abbrev PageLayout := PageMeasure → Int

namespace PageLayout

/-- Letter paper. -/
def standard : PageLayout
  | .pageWidth => 7772400
  | .pageHeight => 10058400
  | .leftMargin | .rightMargin => 1143000
  | .topMargin | .bottomMargin => 914400

def set (layout : PageLayout) (measure : PageMeasure) (length : Int) : PageLayout :=
  fun m => if m = measure then length else layout m

def outOfRange (measure : PageMeasure) (length : Int) : Notice :=
  .once (.feature "page geometry") (.simplified "page geometry"
    ("Page setting " ++ measure.name ++ "=" ++ Number.intText length ++
      " is out of range; kept Word's default"))

/-- The layout with one measure taken from what a source says, in whole twips. -/
def take (source : Bag) (layout : PageLayout) (measure : PageMeasure) : Noted PageLayout :=
  match Bag.int? source measure.name with
  | none => pure layout
  | some length =>
    if measure.accepts length then pure (layout.set measure (twipsOf length * twip))
    else do
      Noted.note (outOfRange measure length)
      pure layout

def ofSource (source : Bag) : Noted PageLayout :=
  PageMeasure.all.foldlM (take source) standard

end PageLayout

/-- A wrapper around text that a run can show. -/
inductive Mark where
  | style (flag : StyleFlag)
  | script (script : Script)
  | smallCaps
deriving DecidableEq

structure RunFormat where
  style : TextStyle
  smallCaps : Bool
  /-- In the order in which they first came up, going inward. -/
  scripts : List Script
  code : Bool
deriving DecidableEq

namespace RunFormat

def plain : RunFormat := ⟨.plain, false, [], false⟩

/-- The format of text inside one more wrapper. -/
def enter (format : RunFormat) : Mark → RunFormat
  | .style flag => { format with style := format.style.set flag true }
  | .smallCaps => { format with smallCaps := true }
  | .script script =>
    if script ∈ format.scripts then format else { format with scripts := format.scripts ++ [script] }

def asCode (format : RunFormat) : RunFormat := { format with code := true }

/-- Text is raised or lowered, not both: what came up last counts. -/
def script? (format : RunFormat) : Option Script := format.scripts.getLast?

end RunFormat

structure Picture where
  format : ImageFormat
  data : ByteArray
  description : Option String

inductive RunPart where
  | text (content : List Char)
  | tab
  | lineBreak
  | pageBreak
  | footnote (number : Nat)
  | picture (picture : Picture)

namespace RunPart

/-- The parts of a text: tabs and line breaks stand apart. -/
def ofChars : List Char → List RunPart
  | [] => []
  | c :: cs =>
    if c = '\t' then .tab :: ofChars cs
    else if c = '\n' ∨ c = '\r' then .lineBreak :: ofChars cs
    else match ofChars cs with
      | .text content :: parts => .text (c :: content) :: parts
      | parts => .text [c] :: parts

/-- The characters that a part stands for. -/
def chars : RunPart → List Char
  | .text content => content
  | .tab => ['\t']
  | .lineBreak => ['\n']
  | .pageBreak => ['\x0c']
  | .footnote _ | .picture _ => []

end RunPart

structure Run where
  format : RunFormat
  parts : List RunPart

namespace Run

def ofText (format : RunFormat) (text : String) : Run := ⟨format, RunPart.ofChars text.toList⟩

def text (run : Run) : String := String.ofList (run.parts.flatMap RunPart.chars)

def footnote? (run : Run) : Option Nat :=
  run.parts.findSome? fun
    | .footnote number => some number
    | _ => none

def picture? (run : Run) : Option Picture :=
  run.parts.findSome? fun
    | .picture picture => some picture
    | _ => none

end Run

inductive RunItem where
  | run (run : Run)
  | link (url : String) (runs : List Run)

namespace RunItem

def runs : RunItem → List Run
  | .run single => [single]
  | .link _ several => several

end RunItem

structure Paragraph where
  /-- The shown name of the style; none is the default style. -/
  style : Option String
  alignment : Option Alignment
  items : List RunItem

namespace Paragraph

def empty : Paragraph := ⟨none, none, []⟩

/-- A paragraph of one run, or of none when there is no text. -/
def ofText (text : String) : Paragraph :=
  ⟨none, none, if text = "" then [] else [.run (.ofText .plain text)]⟩

end Paragraph

inductive Block where
  | paragraph (paragraph : Paragraph)
  | table (style : Option String) (rows : List (List (List Block)))

namespace Block

def isTable : Block → Bool
  | .table .. => true
  | .paragraph _ => false

end Block

/-- How a style looks, in the units of a package. -/
structure StyleLook where
  size : Option Nat
  color : Option String
  bold : Bool
  after : Option Nat
  line : Option Nat

namespace StyleLook

/-- The looks of the body and of headings in a new package. -/
def standard : List (String × StyleLook) := [
  ("Normal", ⟨none, none, false, none, none⟩),
  ("Heading 1", ⟨some 28, some "365F91", true, some 0, none⟩),
  ("Heading 2", ⟨some 26, some "4F81BD", true, some 0, none⟩),
  ("Heading 3", ⟨none, some "4F81BD", true, some 0, none⟩),
  ("Heading 4", ⟨none, some "4F81BD", true, some 0, none⟩),
  ("Heading 5", ⟨none, some "243F60", false, some 0, none⟩)]

/-- The looks that a writer sets. -/
def configured : List (String × StyleLook) := [
  ("Normal", ⟨some 22, none, false, some 120, some 276⟩),
  ("Heading 1", ⟨some 32, some "2F5496", true, some 120, none⟩),
  ("Heading 2", ⟨some 26, some "4472C4", true, some 80, none⟩),
  ("Heading 3", ⟨some 24, some "1F3763", true, some 80, none⟩),
  ("Heading 4", ⟨some 22, some "2F5496", true, some 80, none⟩),
  ("Heading 5", ⟨none, some "243F60", false, some 0, none⟩)]

end StyleLook

/-- The paragraphs of a footnote. -/
abbrev FootnoteText := List String

structure Composition where
  blocks : List Block
  /-- Numbered from one. -/
  footnotes : List FootnoteText
  core : CoreProperties
  layout : PageLayout
  looks : List (String × StyleLook)

end Interchange.Word
