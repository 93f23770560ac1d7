import Interchange.Document.Node
import Interchange.Text.Lines

/-!
# Rewriting trees

A function on nodes rewrites a tree from the top down, being applied to a node and then to the
children of what it gives, or from the bottom up, when it makes a node from its rewritten children.
Either way the recursion goes one level deeper with every level of the tree and has room for only so
many. The second half of the module has the functions from which transforms rebuild a tree: they
remove what is empty, move headings, merge text and unwrap single children.
-/
namespace Interchange

namespace Node

variable {ε : Type}

/-- The tree rewritten down to the given number of levels; what lies deeper is the given error. -/
def mapLevels (tooDeep : ε) (f : Node → Except ε Node) : Nat → Node → Except ε Node
  | 0, _ => .error tooDeep
  | levels + 1, node => do
    let mapped ← f node
    let children ← mapped.children.mapM (mapLevels tooDeep f levels)
    .ok { mapped with children }

/-- The tree rewritten by a function that makes no branch longer by more than one level. -/
def mapNodes (tooDeep : ε) (f : Node → Except ε Node) (node : Node) : Except ε Node :=
  mapLevels tooDeep f (node.depth + 2) node

/-- The tree with every node made anew when its children are, each in turn. A level that the
recursion has no room for ends it. -/
def rebuild (tooDeep : ε) (make : Node → Except ε Node) : Nat → Node → Except ε Node
  | 0, _ => .error tooDeep
  | room + 1, node => do
    let children ← node.children.mapM (rebuild tooDeep make room)
    make { node with children }

def isBlankText (node : Node) : Bool :=
  node.kind == .text && Text.isBlankLine (Bag.textOr node.props Key.content).toList

def isEmptyContainer (node : Node) : Bool :=
  (node.kind == .paragraph || node.kind == .span || node.kind == .div) && node.children.isEmpty

def isEmptyNode (node : Node) : Bool := node.isBlankText || node.isEmptyContainer

def withoutEmpty (node : Node) : Node :=
  { node with children := node.children.filter (!·.isEmptyNode) }

def isWrapper (node : Node) : Bool :=
  (node.kind == .div || node.kind == .span) && node.props.isEmpty && node.span.isNone

/-- The child of a wrapper that has only one; any other node. -/
def unwrapped (node : Node) : Node :=
  match node.children with
  | [child] => if node.isWrapper then child else node
  | _ => node

end Node

/-- From the start of a span to the stop of one that follows it. -/
def Span.through (left right : Option Span) : Option Span :=
  match left, right with
  | some s, some t =>
    if h : s.stop ≤ t.start then
      some ⟨s.start, t.stop, Nat.le_trans s.ordered (Nat.le_trans h t.ordered)⟩
    else none
  | _, _ => none

namespace Node

/-- Neighbouring pieces of text may become one when their properties agree but for the content. -/
def canMerge (left right : Node) : Bool :=
  left.kind == .text && right.kind == .text &&
    Bag.same (left.props.erase Key.content) (right.props.erase Key.content)

/-- Two pieces of text in one, with a span when they have one each and these do not overlap. -/
def merge (left right : Node) : Node :=
  let content := Bag.textOr left.props Key.content ++ Bag.textOr right.props Key.content
  (left.withText Key.content content).withSpan (Span.through left.span right.span)

/-- A sequence of nodes, the given one in front, with each merged into the next where it can be. -/
def mergeRun (last : Node) : List Node → List Node
  | [] => [last]
  | node :: nodes =>
    if canMerge last node then mergeRun (merge last node) nodes else last :: mergeRun node nodes

def mergeAdjacent : List Node → List Node
  | [] => []
  | node :: nodes => mergeRun node nodes

def withMerged (node : Node) : Node := { node with children := mergeAdjacent node.children }

end Node

/-- A number of levels by which headings move, and the bounds between which they stay. -/
structure HeadingShift where
  delta : Int
  least : Int
  most : Int
  ordered : least ≤ most

namespace HeadingShift

/-- One level deeper, within the six levels of headings. -/
def standard : HeadingShift := ⟨1, 1, 6, by decide⟩

def level (shift : HeadingShift) (n : Int) : Int :=
  min (max (n + shift.delta) shift.least) shift.most

/-- The properties of a node after the shift; only a heading with a level changes. -/
def props (shift : HeadingShift) (kind : Kind) (props : Bag) : Except ValueFault Bag :=
  match Bag.int? props Key.level with
  | some n =>
    if kind = .heading then (Value.ofInt (shift.level n)).map (props.insert Key.level)
    else .ok props
  | none => .ok props

/-- The node after the shift. A level that no property can hold is a fault. -/
def moved (shift : HeadingShift) (node : Node) : Except ValueFault Node :=
  (shift.props node.kind node.props).map fun props => { node with props }

end HeadingShift

end Interchange
