import Interchange.Proofs.Document.Places
import Interchange.Proofs.Document.Texts

/-!
# Walking through a tree

What comes off the stack of a walk is the node, followed by the walks of its children: every node of
the tree at its place, once and in document order. The text of a tree follows the same recursion.
-/
namespace Interchange

namespace Placed

/-- All that lies in the nodes on a stack comes off it, and in document order if they are in order. -/
theorem exists_unstack : ∀ stack : List Placed, stack.Pairwise Precedes →
    ∃ found : List Placed, found.map node = Node.unstack (stack.map node) ∧
      found.Pairwise (·.place < ·.place) ∧
      ∀ placed, placed ∈ found ↔ ∃ top ∈ stack, placed.LiesIn top
  | [], _ => ⟨[], by simp [Node.unstack], .nil, by simp⟩
  | top :: stack, h => by
    have hordered := pairwise_spread h
    obtain ⟨found, hnodes, hsorted, hmem⟩ := exists_unstack (top.spread stack) hordered
    simp only [spread_eq, List.mem_append] at hmem
    refine ⟨top :: found, ?_, List.pairwise_cons.2 ⟨?_, hsorted⟩, ?_⟩
    · rw [List.map_cons, hnodes, map_node_spread, List.map_cons, Node.unstack]
    · -- The top node comes before its children by their places, and before the rest by the order
      -- of the stack.
      intro placed hplaced
      obtain ⟨other, hother | hother, hlies⟩ := (hmem placed).1 hplaced
      · exact lt_of_liesIn_child hother hlies
      · exact ((List.pairwise_cons.1 h).1 other hother).lt (liesIn_refl top) hlies
    · intro placed
      rw [List.mem_cons, hmem]
      constructor
      · rintro (rfl | ⟨other, hother | hother, hlies⟩)
        · exact ⟨placed, List.mem_cons_self, liesIn_refl placed⟩
        · exact ⟨top, List.mem_cons_self, liesIn_iff.2 (.inr ⟨other, hother, hlies⟩)⟩
        · exact ⟨other, List.mem_cons_of_mem _ hother, hlies⟩
      · rintro ⟨other, hother, hlies⟩
        rcases List.mem_cons.1 hother with rfl | hother
        · rcases liesIn_iff.1 hlies with rfl | ⟨child, hchild, hlies⟩
          · exact .inl rfl
          · exact .inr ⟨child, .inl hchild, hlies⟩
        · exact .inr ⟨other, .inr hother, hlies⟩
termination_by stack => total stack
decreasing_by exact total_spread top stack

end Placed

namespace Node

theorem lists_walk (node : Node) : node.Lists (fun place => (node.at? place).isSome) node.walk := by
  obtain ⟨found, hnodes, hsorted, hmem⟩ :=
    Placed.exists_unstack [.root node] (List.pairwise_singleton _ _)
  simp only [List.mem_singleton, exists_eq_left] at hmem
  have hwalk : node.walk = found.map Placed.node := hnodes.symm
  rw [hwalk]
  refine Placed.lists_map hsorted (fun placed => (hmem placed).1) fun place => ?_
  rw [Option.isSome_iff_exists]
  constructor
  · rintro ⟨placed, hplaced, rfl⟩
    exact ⟨placed.node, Placed.liesIn_root.1 ((hmem placed).1 hplaced)⟩
  · rintro ⟨part, hpart⟩
    exact ⟨⟨place, part⟩, (hmem _).2 (Placed.liesIn_root.2 hpart), rfl⟩

lemma exists_place_of_mem_walk {node part : Node} (h : part ∈ node.walk) :
    ∃ place, node.at? place = some part := by
  obtain ⟨places, -, -, hplaces⟩ := lists_walk node
  have hmem : some part ∈ places.map node.at? := hplaces ▸ List.mem_map_of_mem h
  obtain ⟨place, -, hplace⟩ := List.mem_map.1 hmem
  exact ⟨place, hplace⟩

lemma textContents_eq_join (nodes : List Node) :
    textContents nodes = String.join (nodes.map textContent) := by
  induction nodes with
  | nil => rfl
  | cons node nodes ih => rw [textContents, ih, List.map_cons, String.join_cons]

/-- A walk is the node followed by the walks of its children: all nodes of the tree, each at its own
place and before what lies below it. The text is the content of the node itself, where its kind
bears text, followed by the texts of its children. -/
theorem walk_and_textContent (node : Node) :
    node.walk = node :: node.children.flatMap walk ∧
    node.Lists (fun place => (node.at? place).isSome) node.walk ∧
    node.textContent =
      (if node.kind = .text ∨ node.kind = .code ∨ node.kind = .codeBlock then
        (Bag.text? node.props Key.content).getD ""
      else "") ++ String.join (node.children.map textContent) := by
  refine ⟨?_, lists_walk node, ?_⟩
  · rw [walk_eq, walkAll_eq_flatMap]
  · have hown : node.ownText =
        if node.kind = .text ∨ node.kind = .code ∨ node.kind = .codeBlock then
          (Bag.text? node.props Key.content).getD ""
        else "" := by
      simp [ownText, bearsText, Bag.textOr, or_assoc]
    rw [textContent_eq, hown, textContents_eq_join]

end Node

end Interchange
