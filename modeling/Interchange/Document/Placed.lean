import Interchange.Document.Node

/-!
# Nodes with their places

Equal nodes of one tree are told apart by their places: the indexes of the children on the way down
from the root. A search through a tree keeps the nodes that it has still to look at on a stack; what
is on the stack and below counts down as nodes come off it.
-/
namespace Interchange

structure Placed where
  place : List Nat
  node : Node

namespace Placed

def root (node : Node) : Placed := ⟨[], node⟩

def children (placed : Placed) : List Placed :=
  placed.node.children.mapIdx fun i child => ⟨placed.place ++ [i], child⟩

theorem map_node_children (placed : Placed) :
    placed.children.map node = placed.node.children := by
  apply List.ext_getElem <;> simp [children]

/-- The number of nodes on a stack and below. -/
def total (stack : List Placed) : Nat := Node.countAll (stack.map node)

theorem total_cons (placed : Placed) (stack : List Placed) :
    total (placed :: stack) = total placed.children + 1 + total stack := by
  rw [total, List.map_cons, Node.countAll, Node.count_eq, total, map_node_children, total]

theorem total_append (stack others : List Placed) :
    total (stack ++ others) = total stack + total others := by
  rw [total, List.map_append, Node.countAll_append, total, total]

theorem total_reverse (stack : List Placed) : total stack.reverse = total stack := by
  induction stack with
  | nil => rfl
  | cons placed stack ih =>
    have hnil : total [] = 0 := rfl
    rw [List.reverse_cons, total_append, ih, total_cons, total_cons, hnil]
    omega

/-- The stack when a node has come off it and left its children there, the first one on top. -/
def spread (placed : Placed) (stack : List Placed) : List Placed :=
  Node.lay placed.children.reverse stack

/-- The stack when a node has come off it and left its children there, the last one on top. -/
def heap (placed : Placed) (stack : List Placed) : List Placed := Node.lay placed.children stack

theorem spread_eq (placed : Placed) (stack : List Placed) :
    placed.spread stack = placed.children ++ stack := by
  simp [spread, Node.lay]

theorem map_node_spread (placed : Placed) (stack : List Placed) :
    (placed.spread stack).map node = placed.node.spread (stack.map node) := by
  rw [spread_eq, List.map_append, map_node_children, Node.spread_eq]

theorem mem_heap {placed other : Placed} {stack : List Placed} :
    other ∈ placed.heap stack ↔ other ∈ placed.children ∨ other ∈ stack := by
  simp [heap, Node.lay]

theorem total_spread (placed : Placed) (stack : List Placed) :
    total (placed.spread stack) < total (placed :: stack) := by
  rw [spread_eq, total_append, total_cons]
  omega

theorem total_heap (placed : Placed) (stack : List Placed) :
    total (placed.heap stack) < total (placed :: stack) := by
  rw [heap, Node.lay, total_append, total_reverse, total_cons]
  omega

theorem total_rest (placed : Placed) (stack : List Placed) :
    total stack < total (placed :: stack) := by
  rw [total_cons]
  omega

end Placed

end Interchange
