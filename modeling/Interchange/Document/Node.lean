import Interchange.Document.Bag
import Interchange.Document.Kind

/-!
# Nodes

A document is a tree. A node has a kind, properties, children in order and, when it was read
from somewhere, the span of the source it came from. Nodes are values: a builder gives a new node
and leaves the old one as it was.
-/
namespace Interchange

/-- Offsets in the source, the end not included. -/
structure Span where
  start : Nat
  stop : Nat
  ordered : start ≤ stop
deriving DecidableEq

namespace Span

def ofInts? (start stop : Int) : Option Span :=
  if h : 0 ≤ start ∧ start ≤ stop then some ⟨start.toNat, stop.toNat, by omega⟩ else none

/-- The message for offsets that are no span. -/
def faultMessage (start stop : Int) : String :=
  "Invalid span: (" ++ Number.intText start ++ ", " ++ Number.intText stop ++ ")"

end Span

structure Node (τ : Type := String) [Textual τ] where
  kind : Kind τ
  props : Bag τ
  children : List (Node τ)
  span : Option Span

namespace Node

def leaf (kind : Kind) : Node := ⟨kind, .empty, [], none⟩

instance : Inhabited Node := ⟨leaf default⟩

def branch (kind : Kind) (children : List Node) : Node := ⟨kind, .empty, children, none⟩

/-- The node with a property set to a JSON value, if that is a property value. -/
def set (node : Node) (name : String) (value : Json) : Except ValueFault Node :=
  (Bag.set node.props name value).map fun props => { node with props }

def withProp (node : Node) (name : String) (value : Value) : Node :=
  { node with props := node.props.insert name value }

def withText (node : Node) (name text : String) : Node := node.withProp name (.text text)

def withBool (node : Node) (name : String) (b : Bool) : Node := node.withProp name (.bool b)

def withNat (node : Node) (name : String) (n : Nat) : Node :=
  { node with props := Bag.insertNat node.props name n }

def append (node : Node) (children : List Node) : Node :=
  { node with children := node.children ++ children }

def withSpan (node : Node) (span : Option Span) : Node := { node with span }

/-- The tree with the descendant that the child indexes lead to changed, if there is one. -/
def modifyAt? (change : Node → Except ε Node) : List Nat → Node → Option (Except ε Node)
  | [], node => some (change node)
  | i :: path, node =>
    match node.children[i]? with
    | none => none
    | some child =>
      (modifyAt? change path child).map fun changed =>
        changed.map fun child => { node with children := node.children.set i child }

section Trees

variable {τ : Type} [Textual τ]

mutual

/-- The number of nodes of a tree. -/
def count : Node τ → Nat
  | ⟨_, _, children, _⟩ => countAll children + 1

def countAll : List (Node τ) → Nat
  | [] => 0
  | node :: nodes => count node + countAll nodes

end

theorem count_eq (node : Node τ) : node.count = countAll node.children + 1 := by
  cases node
  rfl

theorem countAll_append (nodes others : List (Node τ)) :
    countAll (nodes ++ others) = countAll nodes + countAll others := by
  induction nodes with
  | nil => simp [countAll]
  | cons node nodes ih => simp only [List.cons_append, countAll, ih]; omega

/-- A stack, its top first, after items were laid on it in their order: the last lies on top. -/
def lay {α : Type} (items stack : List α) : List α := items.reverse ++ stack

/-- A stack from which a node came off, after the children of the node were laid on it, so that the
first of them lies on top. -/
def spread (node : Node τ) (stack : List (Node τ)) : List (Node τ) := lay node.children.reverse stack

theorem spread_eq (node : Node τ) (stack : List (Node τ)) :
    node.spread stack = node.children ++ stack := by
  simp [spread, lay]

/-- The nodes in the order in which they come off a stack. -/
@[semireducible] def unstack : List (Node τ) → List (Node τ)
  | [] => []
  | node :: stack => node :: unstack (node.spread stack)
termination_by stack => countAll stack
decreasing_by
  rw [spread_eq, countAll_append, countAll, count_eq]
  omega

/-- The node and all its descendants, parents before children. -/
def walk (node : Node τ) : List (Node τ) := unstack [node]

def walkAll : List (Node τ) → List (Node τ)
  | [] => []
  | node :: nodes => walk node ++ walkAll nodes

/-- What lies deeper in a stack waits until all that comes from above it is off. -/
theorem unstack_append (nodes stack : List (Node τ)) :
    unstack (nodes ++ stack) = unstack nodes ++ unstack stack := by
  induction nodes using unstack.induct with
  | case1 => rw [List.nil_append, unstack, List.nil_append]
  | case2 node nodes ih =>
    rw [spread_eq, List.append_assoc] at ih
    rw [List.cons_append, unstack, unstack, spread_eq, spread_eq, ih, List.cons_append]

theorem unstack_eq_walkAll (stack : List (Node τ)) : unstack stack = walkAll stack := by
  induction stack with
  | nil => rw [unstack, walkAll]
  | cons node stack ih => rw [← List.singleton_append, unstack_append, ih]; rfl

theorem walk_eq (node : Node τ) : node.walk = node :: walkAll node.children := by
  rw [walk, unstack, spread_eq, List.append_nil, unstack_eq_walkAll]

theorem self_subset_walk (node : Node τ) : [node] ⊆ node.walk := by
  rw [walk_eq]
  exact List.cons_subset_cons _ (List.nil_subset _)

theorem below_subset_walk (node : Node τ) : walkAll node.children ⊆ node.walk := by
  rw [walk_eq]
  exact List.subset_cons_self _ _

mutual

/-- The number of levels below the node. -/
def depth : Node τ → Nat
  | ⟨_, _, children, _⟩ => depthBelow children

def depthBelow : List (Node τ) → Nat
  | [] => 0
  | node :: nodes => max (depth node + 1) (depthBelow nodes)

end

theorem depth_eq (node : Node τ) : node.depth = depthBelow node.children := by
  cases node
  rfl

theorem depthBelow_le_iff {nodes : List (Node τ)} {n : Nat} :
    depthBelow nodes ≤ n ↔ ∀ node ∈ nodes, node.depth < n := by
  induction nodes with
  | nil => simp [depthBelow]
  | cons node nodes ih =>
    rw [depthBelow, Nat.max_le, ih, List.forall_mem_cons, Nat.succ_le_iff]

theorem depth_lt_succ_iff {node : Node τ} {n : Nat} :
    node.depth < n + 1 ↔ ∀ child ∈ node.children, child.depth < n := by
  rw [Nat.lt_succ_iff, depth_eq, depthBelow_le_iff]

end Trees

/-- The kinds of nodes that bear text in their content. -/
def bearsText (kind : Kind) : Bool := kind == .text || kind == .code || kind == .codeBlock

def ownText (node : Node) : String :=
  if bearsText node.kind then Bag.textOr node.props Key.content else ""

/-- The texts of a node and its descendants, in order. -/
def textContent (node : Node) : String := String.join ((node.walk.map ownText).filter (· ≠ ""))

def textContents : List Node → String
  | [] => ""
  | node :: nodes => textContent node ++ textContents nodes

theorem join_filled (texts : List String) :
    String.join (texts.filter (· ≠ "")) = String.join texts := by
  induction texts with
  | nil => rfl
  | cons text texts ih =>
    by_cases h : text = ""
    · rw [List.filter_cons_of_neg (by simpa using h), ih, String.join_cons, h, String.empty_append]
    · rw [List.filter_cons_of_pos (by simpa using h), String.join_cons, String.join_cons, ih]

theorem join_walkAll (nodes : List Node) :
    String.join ((walkAll nodes).map ownText) = textContents nodes := by
  induction nodes with
  | nil => rfl
  | cons node nodes ih =>
    rw [walkAll, List.map_append, String.join_append, ih, textContents, textContent, join_filled]

theorem textContent_eq (node : Node) :
    node.textContent = node.ownText ++ textContents node.children := by
  rw [textContent, join_filled, walk_eq, List.map_cons, String.join_cons, join_walkAll]

mutual

/-- Equality of trees: properties are compared in whatever order, all else in order. -/
def same : Node → Node → Bool
  | ⟨k, ps, cs, s⟩, ⟨k', ps', cs', s'⟩ =>
    k == k' && Bag.same ps ps' && s == s' && sameAll cs cs'

def sameAll : List Node → List Node → Bool
  | [], [] => true
  | m :: ms, n :: ns => same m n && sameAll ms ns
  | _, _ => false

end

end Node

end Interchange
