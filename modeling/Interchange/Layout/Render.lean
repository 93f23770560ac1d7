import Interchange.Document.Builders
import Interchange.Document.Kind
import Interchange.Number.Digits
import Interchange.Terminal.Scanner
import Interchange.Text.Lines
import Interchange.Transfer

/-!
# Laying a document out as text

Each kind of node has a role in a layout. A node becomes either a piece of a line or a sequence of
blocks, and a block is lines. Where blocks stand in a line they are joined by spaces; where pieces
stand among blocks, each run of them is a block. On a terminal the four styles are switched on
before their text and off after it, and headings are bold.
-/
namespace Interchange.Layout

abbrev Chars := List Char

def joinWith (separator : String) (pieces : List Chars) : Chars :=
  List.intercalate separator.toList pieces

def lines (cs : Chars) : List Chars := Text.splitAt '\n' cs

def unlines (ls : List Chars) : Chars := joinWith "\n" ls

/-- A piece as the only one, unless it is empty. -/
def nonempty (cs : Chars) : List Chars := if cs.isEmpty then [] else [cs]

/-- A line behind a margin; an empty line has none. -/
def behind (margin : Chars) (line : Chars) : Chars :=
  if line.isEmpty then line else margin ++ line

def indent (body : Chars) : Chars := unlines ((lines body).map (behind "    ".toList))

def quote (body : Chars) : Chars :=
  unlines ((lines body).map fun line => Text.stripEnd ("> ".toList ++ line))

def marker (ordered : Bool) (number : Int) : Chars :=
  if ordered then Number.intDigits number ++ ". ".toList else "- ".toList

/-- The lines of an item: the marker before the first, the others as far in. -/
def itemLines (marker body : Chars) : List Chars :=
  match lines body with
  | [] => [marker]
  | first :: rest => (marker ++ first) :: rest.map (behind (List.replicate marker.length ' '))

/-- The lines of items numbered from the given number on. -/
def listLines (ordered : Bool) (number : Int) : List Chars → List Chars
  | [] => []
  | item :: items => itemLines (marker ordered number) item ++ listLines ordered (number + 1) items

def padRight (width : Nat) (cs : Chars) : Chars := cs ++ List.replicate (width - cs.length) ' '

def greatest (ns : List Nat) : Nat := ns.foldl max 0

/-- The number of columns of a table. -/
def columnCount (rows : List (List Chars)) : Nat := greatest (rows.map List.length)

/-- The width of a column; a row that is too short counts as having an empty cell there. -/
def columnWidth (rows : List (List Chars)) (column : Nat) : Nat :=
  greatest (rows.map fun row => (row.getD column []).length)

def columnWidths (rows : List (List Chars)) : List Nat :=
  (List.range (columnCount rows)).map (columnWidth rows)

/-- A row with every cell as wide as its column, trimmed at the end. -/
def tableLine (separator : Chars) (widths : List Nat) (row : List Chars) : Chars :=
  Text.stripEnd (List.intercalate separator
    (widths.mapIdx fun column width => padRight width (row.getD column [])))

def tableLines (separator : Chars) (rows : List (List Chars)) : List Chars :=
  rows.map (tableLine separator (columnWidths rows))

/-- A text on one line. -/
def flatten (cs : Chars) : Chars := cs.map fun c => if c = '\n' then ' ' else c

inductive Role where
  /-- A block for each part. -/
  | container
  /-- One block of inline text. -/
  | paragraph
  | indented
  | heading
  | codeBlock
  | blockquote
  | list
  | listItem
  | table
  | rule
  | footnoteDef
  | displayMath
  /-- A piece of a line that is its own content. -/
  | content
  | style
  | span
  | quoted
  | link
  | image
  | lineBreak
  | softBreak
  | footnoteRef
  | inlineMath
  | unknown
deriving DecidableEq

def roleTable : List (Kind × Role) := [
  (.document, .container), (.div, .container), (.figure, .container),
  (.definitionList, .container),
  (.paragraph, .paragraph), (.caption, .paragraph), (.definitionTerm, .paragraph),
  (.definitionDesc, .indented), (.heading, .heading), (.codeBlock, .codeBlock),
  (.blockquote, .blockquote), (.list, .list), (.listItem, .listItem), (.table, .table),
  (.horizontalRule, .rule), (.footnoteDef, .footnoteDef), (.mathDisplay, .displayMath),
  (.text, .content), (.code, .content),
  (.emphasis, .style), (.strong, .style), (.underline, .style), (.strikeout, .style),
  (.subscript, .style), (.superscript, .style), (.smallCaps, .style),
  (.span, .span), (.quoted, .quoted), (.link, .link), (.image, .image),
  (.lineBreak, .lineBreak), (.softBreak, .softBreak), (.footnoteRef, .footnoteRef),
  (.mathInline, .inlineMath)]

def roleOf (kind : Kind) : Role :=
  match roleTable.find? (·.1 = kind) with
  | some (_, role) => role
  | none => .unknown

inductive Medium where
  | plain
  | terminal
deriving DecidableEq

structure Setting where
  medium : Medium
  /-- What stands between the columns of a table. -/
  separator : Chars
  /-- The styles that are on further out. -/
  active : TextStyle
  /-- Whether nodes stand directly in a list, where an item is laid out as what it holds. -/
  inList : Bool

inductive Rendered where
  | piece (text : Chars)
  | blocks (blocks : List Chars)
deriving DecidableEq

namespace Rendered

def toBlocks : Rendered → List Chars
  | .piece text => nonempty text
  | .blocks bs => bs

def toPiece : Rendered → Chars
  | .piece text => text
  | .blocks bs => joinWith " " bs

end Rendered

/-- The line of several parts. -/
def inlineText (parts : List Rendered) : Chars := parts.flatMap Rendered.toPiece

/-- The blocks of several parts after the pieces of a run already begun. Empty blocks are left
out. -/
def flowFrom (run : Chars) : List Rendered → List Chars
  | [] => nonempty run
  | .piece text :: parts => flowFrom (run ++ text) parts
  | .blocks bs :: parts => nonempty run ++ bs.filter (!·.isEmpty) ++ flowFrom [] parts

def flow (parts : List Rendered) : List Chars := flowFrom [] parts

def sequence (code : String) : Chars := Terminal.escapeChar :: '[' :: code.toList ++ ['m']

/-- Text in a style, unless that is on already further out or there is no text. -/
def Setting.styled (setting : Setting) (flag : StyleFlag) (text : Chars) : Chars :=
  if setting.medium = .plain ∨ setting.active.get flag ∨ text.isEmpty then text
  else sequence (Terminal.onCode flag) ++ text ++ sequence (Terminal.offCode flag)

def Setting.enter (setting : Setting) (flag : StyleFlag) : Setting :=
  { setting with active := setting.active.set flag true }

/-- The style that a node has on a terminal. -/
def styleFlag? (role : Role) (kind : Kind) : Option StyleFlag :=
  match role with
  | .heading => some .bold
  | .style => StyleFlag.ofKind? kind
  | _ => none

/-- The setting for the parts of a node. -/
def Setting.within (setting : Setting) (role : Role) (kind : Kind) : Setting :=
  let inner := { setting with inList := role == .list }
  match styleFlag? role kind with
  | some flag => inner.enter flag
  | none => inner

def Setting.wrap (setting : Setting) (role : Role) (kind : Kind) (text : Chars) : Chars :=
  match styleFlag? role kind with
  | some flag => setting.styled flag text
  | none => text

def charsOr (bag : Bag) (name default : String) : Chars :=
  ((Bag.filled? bag name).getD default).toList

def pageBreakText : Chars := [Text.formFeed]

def ruleText (props : Bag) : Chars :=
  if Bag.isOn props Key.pageBreak then pageBreakText else "---".toList

/-- A link: its label, and its address unless that is the label. -/
def linkText (props : Bag) (label : Chars) : Chars :=
  let url := (Bag.textOr props Key.url).toList
  if url.isEmpty ∨ url = label then label
  else if label.isEmpty then url
  else label ++ " <".toList ++ url ++ ">".toList

def imageText (props : Bag) : Chars :=
  match Bag.filled? props Key.alt with
  | some alt => "[Image: ".toList ++ alt.toList ++ "]".toList
  | none => "[Image]".toList

def footnoteMark (props : Bag) : Chars :=
  "[".toList ++ charsOr props Key.label "?" ++ "]".toList

def footnoteText (props : Bag) (body : List Chars) : Chars :=
  Text.stripEnd (footnoteMark props ++ ' ' :: joinWith " " body)

/-- The source of a formula, or what stands for the node when it has none. -/
def mathText (node : Node) : Chars :=
  ((Bag.text? node.props Key.mathSource).getD node.plainText).toList

def listBlock (props : Bag) (items : List Rendered) : List Chars :=
  let ls := listLines (Bag.isOn props Key.ordered) ((Bag.int? props Key.start).getD 1)
    (items.map fun item => unlines (flow [item]))
  if ls.isEmpty then [] else [unlines ls]

def cellText (parts : List Rendered) : Chars := flatten (joinWith " " (flow parts))

def tableBlock (separator : Chars) (rows : List (List (List Rendered))) : List Chars :=
  if rows.isEmpty then [] else [unlines (tableLines separator (rows.map (·.map cellText)))]

mutual

def render (setting : Setting) : Node → Rendered
  | node@⟨kind, props, children, _⟩ =>
    let role := roleOf kind
    let inner := setting.within role kind
    match role with
    | .container => .blocks (flow (renderAll inner children))
    | .paragraph => .blocks (nonempty (inlineText (renderAll inner children)))
    | .heading =>
      .blocks (nonempty (setting.wrap role kind (inlineText (renderAll inner children))))
    | .indented =>
      let body := unlines (flow (renderAll inner children))
      .blocks (if body.isEmpty then [] else [indent body])
    | .codeBlock => .blocks [(Bag.textOr props Key.content).toList]
    | .blockquote =>
      let body := joinWith "\n\n" (flow (renderAll inner children))
      .blocks (if body.isEmpty then [] else [quote body])
    | .list => .blocks (listBlock props (renderAll inner children))
    | .listItem =>
      .blocks (if setting.inList then flow (renderAll inner children)
        else nonempty node.plainText.toList)
    | .table => .blocks (tableBlock setting.separator (renderRows inner children))
    | .rule => .blocks [ruleText props]
    | .footnoteDef => .blocks [footnoteText props (flow (renderAll inner children))]
    | .displayMath => .blocks (nonempty (mathText node))
    | .content => .piece (Bag.textOr props Key.content).toList
    | .style => .piece (setting.wrap role kind (inlineText (renderAll inner children)))
    | .span => .piece (inlineText (renderAll inner children))
    | .quoted => .piece ('"' :: inlineText (renderAll inner children) ++ ['"'])
    | .link => .piece (linkText props (inlineText (renderAll inner children)))
    | .image => .piece (imageText props)
    | .lineBreak => .piece ['\n']
    | .softBreak => .piece [' ']
    | .footnoteRef => .piece (footnoteMark props)
    | .inlineMath => .piece (mathText node)
    | .unknown => .blocks (nonempty node.plainText.toList)

def renderAll (setting : Setting) : List Node → List Rendered
  | [] => []
  | node :: nodes => render setting node :: renderAll setting nodes

/-- The parts of the cells of the rows of a table. -/
def renderRows (setting : Setting) : List Node → List (List (List Rendered))
  | [] => []
  | ⟨_, _, cells, _⟩ :: rows => renderCells setting cells :: renderRows setting rows

def renderCells (setting : Setting) : List Node → List (List Rendered)
  | [] => []
  | ⟨_, _, children, _⟩ :: cells => renderAll setting children :: renderCells setting cells

end

/-- The text of a whole document: blocks with an empty line between them. -/
def layOut (setting : Setting) (root : Node) : Chars :=
  let text := joinWith "\n\n" (render setting root).toBlocks
  if text.isEmpty then [] else text ++ ['\n']

end Interchange.Layout
