import Interchange.Document.Node

/-!
# Building documents

The nodes of the shared vocabulary, with their properties in the order in which they are written.
Text may have four styles on a terminal and in a word processor. A styled node is wrapped in one
node for each style, always in the same order, so that one set of styles has one nesting.
-/
namespace Interchange

inductive StyleFlag where
  | bold
  | italic
  | underline
  | strikethrough
deriving DecidableEq

namespace StyleFlag

def all : List StyleFlag := [.bold, .italic, .underline, .strikethrough]

def name : StyleFlag → String
  | .bold => "bold"
  | .italic => "italic"
  | .underline => "underline"
  | .strikethrough => "strikethrough"

def ofName? (name : String) : Option StyleFlag := all.find? (·.name == name)

/-- The kind of node that gives its content the style. -/
def kind : StyleFlag → Kind
  | .bold => .strong
  | .italic => .emphasis
  | .underline => .underline
  | .strikethrough => .strikeout

def ofKind? (kind : Kind) : Option StyleFlag := all.find? (·.kind == kind)

/-- The order in which wrappers are put around a node, innermost first. -/
def wrapOrder : List StyleFlag := [.strikethrough, .underline, .italic, .bold]

end StyleFlag

structure TextStyle where
  bold : Bool := false
  italic : Bool := false
  underline : Bool := false
  strikethrough : Bool := false
deriving DecidableEq, Inhabited

namespace TextStyle

def plain : TextStyle := ⟨false, false, false, false⟩

def get (style : TextStyle) : StyleFlag → Bool
  | .bold => style.bold
  | .italic => style.italic
  | .underline => style.underline
  | .strikethrough => style.strikethrough

def set (style : TextStyle) (flag : StyleFlag) (on : Bool) : TextStyle :=
  match flag with
  | .bold => { style with bold := on }
  | .italic => { style with italic := on }
  | .underline => { style with underline := on }
  | .strikethrough => { style with strikethrough := on }

@[simp] theorem get_set (style : TextStyle) (flag other : StyleFlag) (on : Bool) :
    (style.set flag on).get other = if flag = other then on else style.get other := by
  cases flag <;> cases other <;> rfl

@[simp] theorem get_plain (flag : StyleFlag) : plain.get flag = false := by
  cases flag <;> rfl

/-- Two styles that agree on every flag are one. -/
theorem ext_get {s t : TextStyle} (h : ∀ flag, s.get flag = t.get flag) : s = t := by
  obtain ⟨_, _, _, _⟩ := s
  obtain ⟨_, _, _, _⟩ := t
  have hb := h .bold
  have hi := h .italic
  have hu := h .underline
  have hs := h .strikethrough
  simp only [get] at hb hi hu hs
  simp [hb, hi, hu, hs]

/-- The flags that are on. -/
def flags (style : TextStyle) : List StyleFlag := StyleFlag.all.filter style.get

def ofFlags (flags : List StyleFlag) : TextStyle :=
  flags.foldl (fun style flag => style.set flag true) plain

end TextStyle

/-- A node inside one wrapper for each style that is on. -/
def Node.styled (style : TextStyle) (node : Node) : Node :=
  StyleFlag.wrapOrder.foldl
    (fun node flag => if style.get flag then .branch flag.kind [node] else node) node

end Interchange

namespace Interchange.Node

def text (content : String) : Node := (leaf .text).withText Key.content content

def paragraph (children : List Node) : Node := branch .paragraph children

def heading (level : Nat) (children : List Node) : Node :=
  (branch .heading children).withNat Key.level level

def link (url : String) (children : List Node) : Node :=
  (branch .link children).withText Key.url url

/-- A picture at an address, in the resource table, or both. -/
def image (url alt resource : Option String) : Node :=
  let put (name : String) (value : Option String) (node : Node) : Node :=
    match value with
    | some s => node.withText name s
    | none => node
  (leaf .image) |> put Key.url url |> put Key.alt alt |> put Key.resource resource

/-- A list of items, numbered from one when ordered. -/
def list (ordered : Bool) (items : List Node) : Node :=
  (branch .list items).withBool Key.ordered ordered

def listItem (children : List Node) : Node := branch .listItem children

def tableCell (header : Bool) (children : List Node) : Node :=
  (branch .tableCell children).withBool Key.header header

def tableRow (cells : List Node) : Node := branch .tableRow cells

def table (rows : List Node) : Node := branch .table rows

/-- A rule that stands for the end of a page. -/
def pageBreak : Node := (leaf .horizontalRule).withBool Key.pageBreak true

def lineBreak : Node := leaf .lineBreak

def footnoteRef (label : String) : Node := (leaf .footnoteRef).withText Key.label label

def footnoteDef (label : String) (children : List Node) : Node :=
  (branch .footnoteDef children).withText Key.label label

def document (children : List Node) : Node := branch .document children

end Interchange.Node
