import Interchange.Delimited.Records
import Interchange.Document.Builders
import Interchange.Document.Placed
import Interchange.Text.Lines
import Interchange.Transfer

/-!
# Tables as delimited text

A whole text is read as one table, and the cells of its first record are header cells unless the
header is switched off. Of a document the first of its outermost tables is written. What lies
outside of that table is not, which is noted where it is text, and so is what a cell cannot hold.
-/
namespace Interchange.Delimited

def headerName : String := "header"

def readSettings : Settings := .ofList [(headerName, .bool true)]

def cellOf (header : Bool) (field : String) : Node := .tableCell header [.text field]

def rowOf (header : Bool) (fields : List String) : Node := .tableRow (fields.map (cellOf header))

def rowsOf (header : Bool) : List (List String) → List Node
  | [] => []
  | first :: rest => rowOf header first :: rest.map (rowOf false)

/-- The least and the greatest number of fields of a record. -/
def widths (records : List (List String)) : Nat × Nat :=
  match records.map List.length with
  | [] => (0, 0)
  | n :: ns => (ns.foldl min n, ns.foldl max n)

def tableWarnings (scanned : Records) : List Warning :=
  let (least, most) := widths scanned.records
  let ragged : List Warning :=
    if least < most then
      [.simplified "ragged table rows"
        ("Rows have differing cell counts (" ++ Number.natText least ++ " to " ++
          Number.natText most ++ "); kept as-is")]
    else []
  let unclosed : List Warning :=
    if scanned.unterminated then
      [.simplified "unterminated quote"
        "Input ends inside a quoted field; the field runs to end of input"]
    else []
  ragged ++ unclosed

def read (dialect : Dialect) (data : ByteArray) (options : ReadOptions) : ReadResult :=
  let settings := Settings.merge readSettings options.extra
  let header := (settings.getOr headerName (.bool true)).isTruthy
  let decoded := Reading.decodeText data
  let scanned := scanRecords dialect.marks decoded.value
  let content := Node.document [.table (rowsOf header scanned.records)]
  let metadata : Bag := .ofList [
    ("delimiter", .text (String.ofList [dialect.delimiter])), (headerName, .bool header)]
  let source := Reading.sourceInfo options dialect.formatName metadata
  .ok ⟨{ Document.ofContent content with source }, decoded.warnings ++ tableWarnings scanned⟩

end Interchange.Delimited

namespace Interchange

namespace Placed

/-- The tables that come off a stack. A table leaves nothing there, any other node its children. -/
@[semireducible] def tablesOn : List Placed → List Placed
  | [] => []
  | top :: stack =>
    if top.node.kind = .table then top :: tablesOn stack else tablesOn (top.spread stack)
termination_by stack => total stack
decreasing_by
  · exact total_rest top stack
  · exact total_spread top stack

end Placed

namespace Node

/-- Whether a node of a kind that bears text has any, in itself or below. -/
def holdsText (node : Node) : Bool :=
  bearsText node.kind && !Text.isBlankLine node.textContent.toList

end Node

namespace Placed

/-- Whether a node that holds text comes off a stack. The given tables leave nothing there. -/
@[semireducible] def findsText (tables : List Placed) : List Placed → Bool
  | [] => false
  | top :: stack =>
    if tables.any (·.place = top.place) then findsText tables stack
    else if top.node.holdsText then true
    else findsText tables (top.heap stack)
termination_by stack => total stack
decreasing_by
  · exact total_rest top stack
  · exact total_heap top stack

end Placed

namespace Node

/-- The tables that lie in no other table. -/
def placedTables (root : Node) : List Placed := Placed.tablesOn [.root root]

def tables (root : Node) : List Node := root.placedTables.map Placed.node

/-- Whether there is text outside the first table. -/
def hasStrayText (root : Node) : Bool := Placed.findsText (root.placedTables.take 1) [.root root]

end Node

end Interchange

namespace Interchange.Delimited

def terminatorName : String := "line_terminator"

def writeSettings : Settings := .ofList [(terminatorName, .text "\n")]

/-- The kinds of node that a cell may hold without losing its form. -/
def isPlainCell (kind : Kind) : Bool := kind == .tableCell || kind == .paragraph || kind == .text

/-- The texts of the parts of a cell, each on a line of its own. -/
def cellText (cell : Node) : String :=
  "\n".intercalate ((cell.children.map Node.textContent).filter (· ≠ ""))

def cellNotices (cell : Node) : List Notice :=
  if cell.walk.all (isPlainCell ·.kind) then []
  else [.once (.feature "cell formatting")
    (.simplified "cell formatting" "Cell content reduced to plain text")]

def recordOf (row : Node) : List String := row.children.map cellText

/-- The line of a record. A single empty field is quoted, since an empty line is no record. -/
def writeRecord (delimiter quote : String) (fields : List String) : String :=
  if fields = [""] then quote ++ quote
  else delimiter.intercalate (fields.map (quoteField delimiter quote))

def writeRecords (delimiter quote terminator : String) (records : List (List String)) : String :=
  String.join (records.map fun fields => writeRecord delimiter quote fields ++ terminator)

def tableNotices (doc : Document) (tables : List Node) : List Notice :=
  let more : List Notice :=
    if 1 < tables.length then
      [.always (.featureLost "additional tables"
        ("Only the first of " ++ Number.natText tables.length ++ " tables was written"))]
    else []
  let stray : List Notice :=
    if doc.content.hasStrayText then
      [.always (.featureLost "non-table content" "Content outside the table was dropped")]
    else []
  more ++ stray

def noTable : Warning :=
  .featureLost "content" "Document has no table; nothing to write" .major

/-- What ends each record; only a table with rows needs it. -/
def terminator (settings : Settings) : Except OptionFault String :=
  match settings.getOr terminatorName (.text "\n") with
  | .text s => .ok s
  | value => .error (.notText value.kindName)

def write (dialect : Dialect) (doc : Document) (options : WriteOptions) :
    Except WriteError (Outcome String) :=
  match doc.content.tables with
  | [] => .ok ⟨"", [noTable]⟩
  | table :: tables =>
    let settings := Settings.merge writeSettings options.extra
    let delimiter := String.ofList [dialect.delimiter]
    let quote := String.ofList [dialect.quote]
    let notices := tableNotices doc (table :: tables) ++
      table.children.flatMap fun row => row.children.flatMap cellNotices
    let output (ending : String) : Outcome String :=
      ⟨writeRecords delimiter quote ending (table.children.map recordOf), Notice.settle notices⟩
    if table.children.isEmpty then .ok (output "")
    else match terminator settings with
      | .ok ending => .ok (output ending)
      | .error fault => .error (.options fault)

end Interchange.Delimited
