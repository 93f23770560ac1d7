import Interchange.Proofs.Document.Contents
import Interchange.Proofs.Transform.Rebuilding

/-!
# No wrapper is left around a single node

Whether a wrapper goes depends on what it says itself and on how many parts it has, and neither of
these changes when its parts are unwrapped. So one pass takes away the redundant wrappers of the
document, at every depth and at the root, and no other node; the text is the same, and a second pass
finds nothing to do.
-/
namespace Interchange

namespace Node

/-- A div or span that has one part, and neither properties nor a span. -/
def IsRedundant (node : Node) : Prop :=
  (node.kind = .div ∨ node.kind = .span) ∧ node.children.length = 1 ∧
    node.props.entries = [] ∧ node.span = none

instance (node : Node) : Decidable node.IsRedundant := inferInstanceAs (Decidable (_ ∧ _ ∧ _ ∧ _))

/-- A node without its parts: its kind, its properties and its span. -/
def bare (node : Node) : Node := { node with children := [] }

/-- The nodes of a tree that are not redundant, in order. -/
def needed (node : Node) : List Node := node.walk.filter fun part => ¬ part.IsRedundant

lemma isWrapper_iff {node : Node} : node.isWrapper = true ↔
    (node.kind = .div ∨ node.kind = .span) ∧ node.props.entries = [] ∧ node.span = none := by
  simp [isWrapper, OrderedMap.isEmpty, and_assoc]

/-- A node gives way to its only part if it is redundant, and stays as it is otherwise. -/
lemma unwrapped_cases (node : Node) :
    (∃ part, node.IsRedundant ∧ node.children = [part] ∧ node.unwrapped = part) ∨
      ¬ node.IsRedundant ∧ node.unwrapped = node := by
  obtain ⟨kind, props, children, span⟩ := node
  have hwrapper := @isWrapper_iff ⟨kind, props, children, span⟩
  match children with
  | [part] =>
    by_cases h : isWrapper ⟨kind, props, [part], span⟩ = true
    · obtain ⟨hkind, hprops, hspan⟩ := hwrapper.1 h
      exact .inl ⟨part, ⟨hkind, rfl, hprops, hspan⟩, rfl, if_pos h⟩
    · refine .inr ⟨fun hredundant => h ?_, if_neg h⟩
      obtain ⟨hkind, -, hprops, hspan⟩ := hredundant
      exact hwrapper.2 ⟨hkind, hprops, hspan⟩
  | [] => exact .inr ⟨fun hredundant => absurd hredundant.2.1 (by simp), rfl⟩
  | _ :: _ :: _ => exact .inr ⟨fun hredundant => absurd hredundant.2.1 (by simp), rfl⟩

lemma length_unwrapSingleAll (nodes : List Node) :
    (unwrapSingleAll nodes).length = nodes.length := by
  induction nodes with
  | nil => rfl
  | cons node nodes ih => rw [unwrapSingleAll, List.length_cons, List.length_cons, ih]

/-- Unwrapping the parts of a node makes no difference to whether it is redundant itself. -/
lemma isRedundant_unwrapSingleAll {kind : Kind} {props : Bag} {children : List Node}
    {span : Option Span} : IsRedundant ⟨kind, props, unwrapSingleAll children, span⟩ ↔
      IsRedundant ⟨kind, props, children, span⟩ := by
  simp only [IsRedundant, length_unwrapSingleAll]

mutual

theorem not_isRedundant_of_mem_unwrapSingle : ∀ node : Node,
    ∀ part ∈ node.unwrapSingle.walk, ¬ part.IsRedundant
  | ⟨kind, props, children, span⟩ => by
    have hparts := not_isRedundant_of_mem_unwrapSingleAll children
    rw [unwrapSingle]
    rcases unwrapped_cases ⟨kind, props, unwrapSingleAll children, span⟩ with
      ⟨part, -, (hsingle : unwrapSingleAll children = [part]), hout⟩ | ⟨hneeded, hout⟩
    · rw [hsingle, walkAll_singleton] at hparts
      rwa [hout]
    · rw [hout, walk_eq, List.forall_mem_cons]
      exact ⟨hneeded, hparts⟩

theorem not_isRedundant_of_mem_unwrapSingleAll : ∀ nodes : List Node,
    ∀ part ∈ walkAll (unwrapSingleAll nodes), ¬ part.IsRedundant
  | [] => List.forall_mem_nil _
  | node :: nodes => by
    rw [unwrapSingleAll, walkAll, List.forall_mem_append]
    exact ⟨not_isRedundant_of_mem_unwrapSingle node, not_isRedundant_of_mem_unwrapSingleAll nodes⟩

end

mutual

theorem unwrapSingle_of_not_isRedundant : ∀ node : Node,
    (∀ part ∈ node.walk, ¬ part.IsRedundant) → node.unwrapSingle = node
  | ⟨kind, props, children, span⟩, h => by
    rw [walk_eq, List.forall_mem_cons] at h
    obtain ⟨hneeded, hparts⟩ := h
    rw [unwrapSingle, unwrapSingleAll_of_not_isRedundant children hparts]
    rcases unwrapped_cases ⟨kind, props, children, span⟩ with ⟨_, hredundant, -⟩ | ⟨-, hout⟩
    · exact absurd hredundant hneeded
    · exact hout

theorem unwrapSingleAll_of_not_isRedundant : ∀ nodes : List Node,
    (∀ part ∈ walkAll nodes, ¬ part.IsRedundant) → unwrapSingleAll nodes = nodes
  | [], _ => rfl
  | node :: nodes, h => by
    rw [walkAll, List.forall_mem_append] at h
    rw [unwrapSingleAll, unwrapSingle_of_not_isRedundant node h.1,
      unwrapSingleAll_of_not_isRedundant nodes h.2]

end

mutual

theorem map_bare_walk_unwrapSingle : ∀ node : Node,
    node.unwrapSingle.walk.map bare = node.needed.map bare
  | ⟨kind, props, children, span⟩ => by
    have hparts := map_bare_walkAll_unwrapSingleAll children
    rw [unwrapSingle, needed, walk_eq ⟨kind, props, children, span⟩]
    rcases unwrapped_cases ⟨kind, props, unwrapSingleAll children, span⟩ with
      ⟨part, hredundant, (hsingle : unwrapSingleAll children = [part]), hout⟩ | ⟨hneeded, hout⟩
    · rw [isRedundant_unwrapSingleAll] at hredundant
      rw [hsingle, walkAll_singleton] at hparts
      rw [hout, List.filter_cons_of_neg (by simpa using hredundant), hparts]
    · rw [isRedundant_unwrapSingleAll] at hneeded
      rw [hout, walk_eq, List.filter_cons_of_pos (by simpa using hneeded), List.map_cons,
        List.map_cons, hparts]
      rfl

theorem map_bare_walkAll_unwrapSingleAll : ∀ nodes : List Node,
    (walkAll (unwrapSingleAll nodes)).map bare =
      ((walkAll nodes).filter fun part => ¬ part.IsRedundant).map bare
  | [] => rfl
  | node :: nodes => by
    rw [unwrapSingleAll, walkAll, walkAll, List.filter_append, List.map_append, List.map_append,
      map_bare_walk_unwrapSingle node, map_bare_walkAll_unwrapSingleAll nodes]
    rfl

end

lemma ownText_of_isRedundant {node : Node} (h : node.IsRedundant) : node.ownText = "" := by
  have hbare : bearsText node.kind = false := by
    rcases h.1 with hkind | hkind <;> rw [hkind] <;> decide
  rw [ownText, hbare]
  rfl

/-- Redundant wrappers say nothing, so the other nodes say all. -/
lemma flatMap_ownText_needed (node : Node) :
    (node.needed.flatMap fun part => part.ownText.toList) =
      node.walk.flatMap fun part => part.ownText.toList := by
  rw [needed]
  induction node.walk with
  | nil => rfl
  | cons part parts ih =>
    by_cases h : part.IsRedundant
    · rw [List.filter_cons_of_neg (by simpa using h), ih, List.flatMap_cons,
        ownText_of_isRedundant h]
      rfl
    · rw [List.filter_cons_of_pos (by simpa using h), List.flatMap_cons, ih, List.flatMap_cons]

lemma flatMap_ownText_map_bare (nodes : List Node) :
    ((nodes.map bare).flatMap fun part => part.ownText.toList) =
      nodes.flatMap fun part => part.ownText.toList := by
  rw [List.flatMap_map]
  rfl

theorem textContent_unwrapSingle (node : Node) :
    node.unwrapSingle.textContent = node.textContent := by
  refine String.toList_inj.1 ?_
  rw [textContent_eq_flatMap_walk, ← flatMap_ownText_map_bare, map_bare_walk_unwrapSingle,
    flatMap_ownText_map_bare, flatMap_ownText_needed, textContent_eq_flatMap_walk]

end Node

namespace Transform

/-- A document has one result of unwrapping, which is given whenever there is room for the tree, and
once is enough: no node of the result is redundant, the root included, and unwrapping once more
leaves it as it is. The text is the same. The nodes of the result are, in order, those of the
document that are not redundant, each with its kind, its properties and its span. -/
theorem unwrapSingleChild_normalForm (doc : Document) :
    ∃ result, Makes .unwrapSingleChild doc result ∧
      (∀ part ∈ result.content.walk, ¬ part.IsRedundant) ∧
      Makes .unwrapSingleChild result result ∧
      result.content.depth ≤ doc.content.depth ∧
      result.content.textContent = doc.content.textContent ∧
      result.content.walk.map Node.bare = doc.content.needed.map Node.bare := by
  have hneeded := Node.not_isRedundant_of_mem_unwrapSingle doc.content
  have hagain := makes_unwrapSingleChild { doc with content := doc.content.unwrapSingle }
  dsimp only at hagain
  rw [Node.unwrapSingle_of_not_isRedundant _ hneeded] at hagain
  exact ⟨_, makes_unwrapSingleChild doc, hneeded, hagain, Node.depth_unwrapSingle_le doc.content,
    Node.textContent_unwrapSingle doc.content, Node.map_bare_walk_unwrapSingle doc.content⟩

/-- Wrappers in wrappers go with the root; one that has two parts stays. -/
example :
    (Node.branch .div [.branch .div [.branch .span [.text "a", .branch .span [.text "b"]]]]
      ).unwrapSingle.walk.map Node.kind = [.span, .text, .text] := by
  decide

end Transform

end Interchange
