import Interchange.Document.Builders
import Interchange.Number.Numeral
import Interchange.Word.Library.Values
import Interchange.Word.Package

/-!
# The package library: styles, runs and tables

What the library makes of the elements of a package.

A style has an identifier, by which a document refers to it, and a name. The names of a few built-in
styles are kept in lower case in a package and shown with a capital. A paragraph whose style is
missing, or is no style of paragraphs, has the default style.

The properties of a run say how its text looks. A property that cannot be read damages the document,
but only where it is looked at: the style of a run without text is not.

A table is a grid of columns. A cell takes up one column or several; one that continues the cell
above stands for that cell, which may continue another one in turn. The cells of a row are the cells
that hold the content, once for each column.
-/
namespace Interchange.Word

open Markup (Element)

inductive StyleKind where
  | paragraph
  | character
  | table
  | numbering
deriving DecidableEq

namespace StyleKind

def all : List StyleKind := [.paragraph, .character, .table, .numbering]

/-- The word for a kind in a package. -/
def text : StyleKind → String
  | .paragraph => "paragraph"
  | .character => "character"
  | .table => "table"
  | .numbering => "numbering"

/-- The kind in messages. -/
def shown : StyleKind → String
  | .paragraph => "PARAGRAPH (1)"
  | .character => "CHARACTER (2)"
  | .table => "TABLE (3)"
  | .numbering => "LIST (4)"

end StyleKind

structure Style where
  id : String
  /-- The name as it is kept. -/
  name : String
  kind : Option StyleKind
  isDefault : Bool
deriving DecidableEq

namespace Style

/-- The built-in names that are shown otherwise than they are kept. -/
def aliases : List (String × String) :=
  ["Caption", "Footer", "Header", "Heading 1", "Heading 2", "Heading 3", "Heading 4", "Heading 5",
    "Heading 6", "Heading 7", "Heading 8", "Heading 9"].map
    fun shown => (shown, shown.map Char.toLower)

/-- A name as it is shown. -/
def shownName (kept : String) : String :=
  match aliases.find? (·.2 = kept) with
  | some (shown, _) => shown
  | none => kept

/-- A name as it is kept. -/
def keptName (shown : String) : String :=
  match aliases.find? (·.1 = shown) with
  | some (_, kept) => kept
  | none => shown

/-- The identifier of a built-in style: its name without spaces, with a dash before its accent. -/
def idOfName (shown : String) : String :=
  let join (words : List String) : String := String.join words
  match (Text.words shown.toList).map String.ofList with
  | words =>
    let (stem, accent) := words.span (· ≠ "Accent")
    if stem.isEmpty ∨ accent.isEmpty then join words else join stem ++ "-" ++ join accent

/-- A built-in style by its shown name. -/
def builtIn (kind : StyleKind) (shown : String) (isDefault : Bool := false) : Style :=
  ⟨idOfName shown, keptName shown, some kind, isDefault⟩

/-- A style in a package; one of no known kind, or with a switch that cannot be read, is damaged. -/
def ofElement? (element : Element) : Option Style := do
  let kind ← match element.attribute? (w "type") with
    | none => some none
    | some text => (StyleKind.all.find? (·.text = text)).map some
  let isDefault ← match element.attribute? (w "default") with
    | some text => switch? text
    | none => some false
  let name := (element.first? (w "name")).bind (·.attribute? (w "val"))
  some ⟨(element.attribute? (w "styleId")).getD "", name.getD "", kind, isDefault⟩

end Style

abbrev Styles := List Style

namespace Styles

/-- The last of the default styles of a kind. -/
def default? (styles : Styles) (kind : StyleKind) : Option Style :=
  (styles.filter fun s => s.kind = some kind ∧ s.isDefault).getLast?

def byId? (styles : Styles) (id : String) : Option Style := styles.find? (·.id = id)

/-- The style that a paragraph refers to. -/
def ofReference? (styles : Styles) (id : Option String) : Option Style :=
  match id.bind styles.byId? with
  | some style => if style.kind = some .paragraph then some style else styles.default? .paragraph
  | none => styles.default? .paragraph

/-- A style by its shown name, or else by its identifier. -/
def named? (styles : Styles) (name : String) : Option Style :=
  styles.find? (·.name = Style.keptName name) <|> styles.byId? name

/-- The names of a family of table styles, plain and with each of six accents. -/
def accented (stem : String) : List String :=
  stem :: [1, 2, 3, 4, 5, 6].map fun n => stem ++ " Accent " ++ Number.natText n

def characterNames : List String := [
  "Header Char", "Footer Char", "Heading 1 Char", "Heading 2 Char", "Heading 3 Char", "Title Char",
  "Subtitle Char", "Body Text Char", "Body Text 2 Char", "Body Text 3 Char", "Macro Text Char",
  "Quote Char", "Heading 4 Char", "Heading 5 Char", "Heading 6 Char", "Heading 7 Char",
  "Heading 8 Char", "Heading 9 Char", "Strong", "Emphasis", "Intense Quote Char",
  "Subtle Emphasis", "Intense Emphasis", "Subtle Reference", "Intense Reference", "Book Title"]

def paragraphNames : List String := [
  "Header", "Footer", "Heading 1", "Heading 2", "Heading 3", "Heading 4", "Heading 5", "Heading 6",
  "Heading 7", "Heading 8", "Heading 9", "No Spacing", "Title", "Subtitle", "List Paragraph",
  "Body Text", "Body Text 2", "Body Text 3", "List", "List 2", "List 3", "List Bullet",
  "List Bullet 2", "List Bullet 3", "List Number", "List Number 2", "List Number 3",
  "List Continue", "List Continue 2", "List Continue 3", "Quote", "Caption", "Intense Quote",
  "TOC Heading"]

def tableNames : List String :=
  "Table Grid" :: ["Light Shading", "Light List", "Light Grid", "Medium Shading 1",
    "Medium Shading 2", "Medium List 1", "Medium List 2", "Medium Grid 1", "Medium Grid 2",
    "Medium Grid 3", "Dark List", "Colorful Shading", "Colorful List",
    "Colorful Grid"].flatMap accented

/-- The styles of a new package. -/
def standard : Styles :=
  Style.builtIn .paragraph "Normal" true :: paragraphNames.map (Style.builtIn .paragraph ·) ++
    ⟨"MacroText", "macro", some .paragraph, false⟩ ::
    Style.builtIn .character "Default Paragraph Font" true ::
    characterNames.map (Style.builtIn .character ·) ++
    ⟨"TableNormal", "Normal Table", some .table, true⟩ ::
    tableNames.map (Style.builtIn .table ·) ++ [Style.builtIn .numbering "No List" true]

def ofElement? (root : Element) : Option Styles := (root.named (w "style")).mapM Style.ofElement?

end Styles

inductive Script where
  | superscript
  | subscript
deriving DecidableEq

namespace Script

def kind : Script → Kind
  | .superscript => .superscript
  | .subscript => .subscript

end Script

namespace Font

def property? (run : Element) (name : String) : Option Element :=
  (run.first? (w "rPr")).bind (·.first? (w name))

def value? (element : Element) : Option String := element.attribute? (w "val")

/-- Whether a switch is on: it is off when absent and on when it has no value. -/
def switchOn? (run : Element) (name : String) : Option Bool :=
  match property? run name with
  | none => some false
  | some element =>
    match value? element with
    | none => some true
    | some text => switch? text

def themeColors : List String := [
  "UNMAPPED", "accent1", "accent2", "accent3", "accent4", "accent5", "accent6", "background1",
  "background2", "dark1", "dark2", "followedHyperlink", "hyperlink", "light1", "light2", "text1",
  "text2"]

/-- Three bytes in hexadecimal, or the color that the reader's program chooses. -/
def isColor (text : String) : Bool :=
  let cs := text.toList
  let isByte (digits : List Char) : Bool :=
    match Number.readHex? digits with
    | some n => 0 ≤ n && n < 256
    | none => false
  text == "auto" || isByte (cs.take 2) && isByte ((cs.drop 2).take 2) && isByte (cs.drop 4)

def hasFace (run : Element) : Bool :=
  match (property? run "rFonts").bind (·.attribute? (w "ascii")) with
  | some name => name != ""
  | none => false

def hasSize? (run : Element) : Option Bool :=
  match property? run "sz" with
  | none => some false
  | some element => value? element >>= isSized?

def hasColor? (run : Element) : Option Bool :=
  match property? run "color" with
  | none => some false
  | some element =>
    match element.attribute? (w "themeColor") with
    | some theme => if theme ∈ themeColors then some true else none
    | none => do
      let text ← value? element
      if isColor text then some true else none

/-- Whether a run has a font of its own: a face, else a size, else a color. -/
def isOwn? (run : Element) : Option Bool := do
  if hasFace run then some true
  else if ← hasSize? run then some true
  else hasColor? run

def underlines : List String := [
  "single", "words", "double", "dotted", "thick", "dash", "dotDash", "dotDotDash", "wave",
  "dottedHeavy", "dashedHeavy", "dashDotHeavy", "dashDotDotHeavy", "wavyHeavy", "dashLong",
  "wavyDouble", "dashLongHeavy"]

/-- A line of any sort below the text; one without a sort is none. -/
def underlined? (run : Element) : Option Bool :=
  match (property? run "u").bind value? with
  | none => some false
  | some sort =>
    if sort = "none" then some false
    else if sort ∈ underlines then some true
    else none

def script? (run : Element) : Option (Option Script) :=
  match property? run "vertAlign" with
  | none => some none
  | some element =>
    (value? element).map fun place =>
      if place = "superscript" then some .superscript
      else if place = "subscript" then some .subscript
      else none

def style? (run : Element) : Option TextStyle := do
  let bold ← switchOn? run "b"
  let italic ← switchOn? run "i"
  let underline ← underlined? run
  let strikethrough ← switchOn? run "strike"
  some ⟨bold, italic, underline, strikethrough⟩

/-- A text in the style of a run: raised or lowered, then in small capitals, then styled. -/
def styled? (run : Element) (text : String) : Option Node := do
  let script ← script? run
  let smallCaps ← switchOn? run "smallCaps"
  let style ← style? run
  let raised : Node := match script with
    | some script => .branch script.kind [.text text]
    | none => .text text
  let node : Node := if smallCaps then .branch .smallCaps [raised] else raised
  some (node.styled style)

end Font

structure GridCell where
  element : Element
  /-- The number of columns; none when it cannot be read. -/
  span : Option Int
  continues : Bool

structure GridRow where
  /-- The number of columns left out at the start; none when it cannot be read. -/
  before : Option Int
  cells : List GridCell

/-- The place of a cell that holds content: so many rows up, and its index there. -/
structure GridPlace where
  up : Nat
  index : Nat
deriving DecidableEq

structure PlacedCell where
  place : GridPlace
  element : Element

namespace GridCell

def whole? (element : Element) : Option Int := do
  let text ← element.attribute? (w "val")
  Number.readInt? text.toList

def ofElement (cell : Element) : GridCell :=
  let property? (name : String) : Option Element :=
    (cell.first? (w "tcPr")).bind (·.first? (w name))
  ⟨cell,
    match property? "gridSpan" with
    | none => some 1
    | some span => whole? span,
    match property? "vMerge" with
    | none => false
    | some merge => (merge.attribute? (w "val")).getD "continue" = "continue"⟩

end GridCell

namespace GridRow

def ofElement (row : Element) : GridRow :=
  ⟨match (row.first? (w "trPr")).bind (·.first? (w "gridBefore")) with
    | none => some 0
    | some before => GridCell.whole? before,
    (row.named (w "tc")).map .ofElement⟩

/-- The number of columns before a cell. -/
def offset? (row : GridRow) (index : Nat) : Option Int := do
  let before ← row.before
  let spans ← (row.cells.take index).mapM (·.span)
  some (before + spans.foldl (· + ·) 0)

/-- The index of the cell that starts after so many columns, counted from a given cell on. -/
def indexFrom? (offset : Int) (index : Nat) : List GridCell → Option Nat
  | [] => none
  | cell :: cells =>
    if offset < 0 then none
    else if offset = 0 then some index
    else do
      let span ← cell.span
      indexFrom? (offset - span) (index + 1) cells

def indexAt? (row : GridRow) (offset : Int) : Option Nat := do
  let before ← row.before
  indexFrom? (offset - before) 0 row.cells

/-- The cell that holds the content of a cell, once for each column; `above` are the rows further
up, the nearest first. -/
def placed? (up : Nat) (row : GridRow) (above : List GridRow) (index : Nat) : Option (List PlacedCell) := do
  let cell ← row.cells[index]?
  if cell.continues then
    match above with
    | [] => none
    | upper :: further => do
      let offset ← row.offset? index
      let index ← upper.indexAt? offset
      upper.placed? (up + 1) further index
  else do
    let span ← cell.span
    some (List.replicate span.toNat ⟨⟨up, index⟩, cell.element⟩)

def placedCells? (row : GridRow) (above : List GridRow) : Option (List PlacedCell) := do
  let cells ← (List.range row.cells.length).mapM (row.placed? 0 above)
  some cells.flatten

end GridRow

end Interchange.Word
