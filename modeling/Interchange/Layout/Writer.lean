import Interchange.Layout.Render

/-!
# Writing text

The same layout on both media. What it loses is noted at the nodes that it comes to, in their order.
The text between the columns of a table can be set, and is looked at where a table with rows is laid
out.
-/
namespace Interchange.Layout

def feature (name message : String) (severity : Severity := .minor) : Notice :=
  .once (.feature name) (.simplified name message severity)

def headingNotice : Notice :=
  feature "heading" "Heading levels are not representable in plain text" .info

def styleNotice : Notice :=
  feature "inline styles" "Inline formatting is not representable in plain text" .info

def tableNotice : Notice := feature "table" "Table written as aligned text rows"

def mathNotice : Notice := feature "math" "Math written as its source text" .info

/-- What is noted of a node whatever its parts are; only in a list is an item known. -/
def ownNotices (medium : Medium) (inList : Bool) (node : Node) : List Notice :=
  match roleOf node.kind with
  | .heading => if medium = .plain then [headingNotice] else []
  | .style =>
    if medium = .terminal ∧ (StyleFlag.ofKind? node.kind).isSome then [] else [styleNotice]
  | .table => [tableNotice]
  | .displayMath | .inlineMath =>
    if (Bag.text? node.props Key.mathSource).isSome then [mathNotice] else [.ofUnknown node]
  | .listItem => if inList then [] else [.ofUnknown node]
  | .unknown => [.ofUnknown node]
  | _ => []

/-- Whether the parts of a node are laid out at all. -/
def descends (inList : Bool) : Role → Bool
  | .listItem => inList
  | .codeBlock | .rule | .displayMath | .content | .image | .lineBreak | .softBreak
  | .footnoteRef | .inlineMath | .unknown => false
  | _ => true

mutual

/-- The nodes that a layout comes to, in order, each with whether it stands directly in a list. The
rows and cells of a table are passed over, and in some roles so are all parts. -/
def reached (inList : Bool) : Node → List (Bool × Node)
  | node@⟨kind, _, children, _⟩ =>
    (inList, node) ::
      match roleOf kind with
      | .list => reachedAmong true children
      | .table => reachedInRows children
      | role => if descends inList role then reachedAmong false children else []

def reachedAmong (inList : Bool) : List Node → List (Bool × Node)
  | [] => []
  | node :: nodes => reached inList node ++ reachedAmong inList nodes

def reachedInRows : List Node → List (Bool × Node)
  | [] => []
  | ⟨_, _, cells, _⟩ :: rows => reachedInCells cells ++ reachedInRows rows

def reachedInCells : List Node → List (Bool × Node)
  | [] => []
  | ⟨_, _, children, _⟩ :: cells => reachedAmong false children ++ reachedInCells cells

end

def noticesAt (medium : Medium) (place : Bool × Node) : List Notice :=
  ownNotices medium place.1 place.2

def losses (medium : Medium) (inList : Bool) (node : Node) : List Notice :=
  (reached inList node).flatMap (noticesAt medium)

def separatorName : String := "column_separator"

def standardSeparator : String := " | "

def writeSettings : Settings := .ofList [(separatorName, .text standardSeparator)]

/-- What stands between two columns. -/
def separator (settings : Settings) : Except OptionFault String :=
  match settings.getOr separatorName (.text standardSeparator) with
  | .text s => .ok s
  | value => .error (.notJoining value.kindName)

/-- Whether the lines of a node are joined from columns: it is a table, and has rows. -/
def hasColumns (node : Node) : Bool := roleOf node.kind == .table && !node.children.isEmpty

/-- Whether columns are laid out anywhere. -/
def laysColumns (root : Node) : Bool := (reached false root).any fun place => hasColumns place.2

def separatorFor (root : Node) (options : WriteOptions) : Except OptionFault String :=
  if laysColumns root then separator (Settings.merge writeSettings options.extra)
  else .ok standardSeparator

/-- What is written of a document with the given text between columns. -/
def output (medium : Medium) (doc : Document) (separator : String) : Outcome String :=
  ⟨String.ofList (layOut ⟨medium, separator.toList, .plain, false⟩ doc.content),
    Notice.settle (losses medium false doc.content)⟩

def write (medium : Medium) (doc : Document) (options : WriteOptions) :
    Except WriteError (Outcome String) :=
  ((separatorFor doc.content options).map (output medium doc)).mapError .options

end Interchange.Layout
