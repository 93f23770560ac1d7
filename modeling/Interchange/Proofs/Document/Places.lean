import Interchange.Document.Placed
import Mathlib.Tactic

/-!
# Places in a tree

A place leads to at most one node. Places in lexicographic order are in document order: a node comes
before all that lies below it, and this before all that lies to the right. A search that leaves the
children of a node on its stack, the first on top, meets every node of the tree once, in this order.
-/
namespace Interchange

namespace Node

/-- The node that child indexes lead to. -/
def at? : Node → List Nat → Option Node
  | node, [] => some node
  | node, i :: place => node.children[i]?.bind fun child => child.at? place

@[simp] lemma at?_nil (node : Node) : node.at? [] = some node := rfl

lemma at?_cons_eq_some {node part : Node} {i : Nat} {place : List Nat} :
    node.at? (i :: place) = some part ↔
      ∃ child, node.children[i]? = some child ∧ child.at? place = some part :=
  Option.bind_eq_some_iff

/-- The given nodes are the nodes of the tree at the places with a property, each of them once and
in document order. -/
def Lists (root : Node) (p : List Nat → Prop) (nodes : List Node) : Prop :=
  ∃ places : List (List Nat), places.Pairwise (· < ·) ∧ (∀ place, place ∈ places ↔ p place) ∧
    places.map root.at? = nodes.map some

end Node

namespace Placed

/-- A node that lies at another one's place or below it. -/
def LiesIn (part whole : Placed) : Prop :=
  ∃ place, part.place = whole.place ++ place ∧ whole.node.at? place = some part.node

variable {part whole other : Placed} {stack : List Placed}

lemma liesIn_refl (placed : Placed) : placed.LiesIn placed := ⟨[], by simp, rfl⟩

lemma liesIn_root {node : Node} : part.LiesIn (root node) ↔ node.at? part.place = some part.node := by
  simp [LiesIn, root]

lemma mem_children : part ∈ whole.children ↔ ∃ i, part.place = whole.place ++ [i] ∧
    whole.node.children[i]? = some part.node := by
  simp only [children, List.mem_mapIdx, List.getElem?_eq_some_iff]
  constructor
  · rintro ⟨i, hi, rfl⟩
    exact ⟨i, rfl, hi, rfl⟩
  · rintro ⟨i, hplace, hi, hnode⟩
    refine ⟨i, hi, ?_⟩
    cases part
    simp_all

/-- All that lies in a node is the node itself or lies in one of its children. -/
lemma liesIn_iff : part.LiesIn whole ↔ part = whole ∨ ∃ child ∈ whole.children, part.LiesIn child := by
  constructor
  · rintro ⟨place, hplace, hnode⟩
    cases place with
    | nil =>
      left
      cases part
      cases whole
      simp_all
    | cons i place =>
      obtain ⟨child, hchild, hpart⟩ := Node.at?_cons_eq_some.1 hnode
      exact .inr ⟨⟨whole.place ++ [i], child⟩, mem_children.2 ⟨i, rfl, hchild⟩, place,
        by simp [hplace], hpart⟩
  · rintro (rfl | ⟨child, hmem, place, hplace, hnode⟩)
    · exact liesIn_refl _
    · obtain ⟨i, hi, hchild⟩ := mem_children.1 hmem
      exact ⟨i :: place, by simp [hplace, hi], Node.at?_cons_eq_some.2 ⟨_, hchild, hnode⟩⟩

lemma LiesIn.prefix (h : part.LiesIn whole) : whole.place <+: part.place := by
  obtain ⟨place, hplace, -⟩ := h
  exact ⟨place, hplace.symm⟩

/-- All that lies in one node comes before all that lies in another. -/
def Precedes (placed other : Placed) : Prop :=
  ∀ place rest, placed.place ++ place < other.place ++ rest

lemma Precedes.lt (h : placed.Precedes other) (hpart : part.LiesIn placed) (hwhole : whole.LiesIn other) :
    part.place < whole.place := by
  obtain ⟨place, hplace, -⟩ := hpart
  obtain ⟨rest, hrest, -⟩ := hwhole
  rw [hplace, hrest]
  exact h place rest

/-- A node comes before what lies in its children. -/
lemma lt_of_liesIn_child (hchild : other ∈ whole.children) (hpart : part.LiesIn other) :
    whole.place < part.place := by
  obtain ⟨i, hi, -⟩ := mem_children.1 hchild
  obtain ⟨place, hplace, -⟩ := hpart
  have hlt : whole.place ++ [] < whole.place ++ (i :: place) :=
    List.append_left_lt (List.nil_lt_cons _ _)
  simpa [hplace, hi] using hlt

lemma pairwise_children (placed : Placed) : placed.children.Pairwise Precedes := by
  rw [List.pairwise_iff_getElem]
  intro i j hi hj hij place rest
  simp only [children, List.getElem_mapIdx, List.append_assoc, List.singleton_append]
  exact List.append_left_lt (List.cons_lt_cons_iff.2 (.inl hij))

/-- The order on a stack lasts when a node leaves its children there. -/
lemma pairwise_spread (h : (whole :: stack).Pairwise Precedes) :
    (whole.spread stack).Pairwise Precedes := by
  obtain ⟨hwhole, hstack⟩ := List.pairwise_cons.1 h
  rw [spread_eq, List.pairwise_append]
  refine ⟨pairwise_children whole, hstack, ?_⟩
  intro child hchild other hother place rest
  obtain ⟨i, hi, -⟩ := mem_children.1 hchild
  have hlt := hwhole other hother (i :: place) rest
  simpa [hi] using hlt

/-- Nodes of a tree with their places, in order, are listed by these places. -/
lemma lists_map {node : Node} {p : List Nat → Prop} {found : List Placed}
    (hsorted : found.Pairwise (·.place < ·.place))
    (hfound : ∀ placed ∈ found, placed.LiesIn (root node))
    (hplaces : ∀ place, (∃ placed ∈ found, placed.place = place) ↔ p place) :
    node.Lists p (found.map Placed.node) := by
  refine ⟨found.map place, List.pairwise_map.2 hsorted, ?_, ?_⟩
  · intro place
    rw [List.mem_map]
    exact hplaces place
  · rw [List.map_map, List.map_map]
    exact List.map_congr_left fun placed hplaced => liesIn_root.1 (hfound placed hplaced)

end Placed

end Interchange
