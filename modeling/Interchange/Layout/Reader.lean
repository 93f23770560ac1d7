import Interchange.Document.Builders
import Interchange.Terminal.Scanner
import Interchange.Text.Lines
import Interchange.Transfer

/-!
# Reading text

Plain text is read as paragraphs of collapsed text, with a rule that ends the page for each form
feed. Text for a terminal is read line by line, each paragraph as runs of text in their styles, and
what the scanner dropped or did not know is reported.
-/
namespace Interchange.PlainText

def formatName : String := "text"

def pageBlocks (paragraphs : List (List Char)) : List Node :=
  paragraphs.map fun text => .paragraph [.text (String.ofList text)]

def documentBlocks (pages : List (List (List Char))) : List Node :=
  List.intercalate [.pageBreak] (pages.map pageBlocks)

def read (data : ByteArray) (options : ReadOptions) : ReadResult :=
  let decoded := Reading.decodeText data
  let pages := Text.pages decoded.value.toList
  let metadata : Bag := Bag.insertNat .empty "pages" pages.length
  let source := Reading.sourceInfo options formatName metadata
  .ok ⟨{ Document.ofContent (.document (documentBlocks pages)) with source }, decoded.warnings⟩

end Interchange.PlainText

namespace Interchange.Terminal

def formatName : String := "ansi"

/-- Whether a line shows nothing. -/
def isHidden (line : List Char) : Bool := Text.isBlankLine (stripEscapes line)

/-- A paragraph of lines that come last first, unless there are none. -/
def closeParagraph (scanner : Scanner) (reversed : List (List Char)) :
    List (List Run) × Scanner :=
  if reversed.isEmpty then ([], scanner)
  else
    let (runs, scanner) := scanner.feed (List.intercalate [' '] reversed.reverse)
    ([runs], scanner)

/-- The paragraphs of lines after those of a paragraph already begun, which come last first. -/
def paragraphsFrom (scanner : Scanner) (reversed : List (List Char)) :
    List (List Char) → List (List Run) × Scanner
  | [] => closeParagraph scanner reversed
  | line :: lines =>
    if isHidden line then
      let (closed, scanner) := closeParagraph scanner reversed
      let (rest, scanner) := paragraphsFrom (scanner.after line) [] lines
      (closed ++ rest, scanner)
    else paragraphsFrom scanner (line :: reversed) lines

def paragraphs (cs : List Char) : List (List Run) × Scanner :=
  paragraphsFrom .start [] (Text.splitLines cs)

def scanWarnings (scanner : Scanner) : List Warning :=
  let colours : List Warning :=
    if scanner.ignored.isEmpty then []
    else [.featureLost "ANSI colors"
      ("Unsupported SGR codes dropped: " ++
        ", ".intercalate (sortCodesByLength scanner.ignored))]
  let control : List Warning :=
    if scanner.dropped = 0 then []
    else [.featureLost "terminal control sequences"
      (Number.natText scanner.dropped ++ " non-styling escape sequence(s) dropped")]
  colours ++ control

def read (data : ByteArray) (options : ReadOptions) : ReadResult :=
  let decoded := Reading.decodeText data
  let (found, scanner) := paragraphs decoded.value.toList
  let content := Node.document (found.map fun runs => .paragraph (runs.map Run.node))
  let codes := sortCodes scanner.ignored
  let metadata : Bag := .ofList [("ignored_codes", .list (codes.map .text))]
  let source := Reading.sourceInfo options formatName metadata
  .ok ⟨{ Document.ofContent content with source }, decoded.warnings ++ scanWarnings scanner⟩

end Interchange.Terminal
