import Interchange.Proofs.OrderedMap
import Interchange.Transfer

/-!
# Characters that no property has

A character that is in no text property of a tree is in no text that is taken from it.
-/
namespace Interchange

/-- A text without a certain character, or no text at all. -/
def Value.lacks (c : Char) : Value → Bool
  | .text s => !s.toList.contains c
  | _ => true

namespace Bag

variable {c : Char} {bag : Bag}

def lacks (c : Char) (bag : Bag) : Bool := bag.values.all (Value.lacks c)

lemma notMem_of_text? (h : bag.lacks c = true) {name text : String}
    (htext : text? bag name = some text) : c ∉ text.toList := by
  unfold text? at htext
  split at htext
  · next found hfound =>
    obtain rfl := Option.some.inj htext
    have hlacks := List.all_eq_true.1 h _ (OrderedMap.mem_values_of_get? hfound)
    simpa [Value.lacks] using hlacks
  · cases htext

lemma notMem_textOr (h : bag.lacks c = true) (name : String) : c ∉ (textOr bag name).toList := by
  rw [textOr]
  cases htext : text? bag name with
  | none => exact List.not_mem_nil
  | some text => exact notMem_of_text? h htext

lemma notMem_of_filled? (h : bag.lacks c = true) {name text : String}
    (htext : filled? bag name = some text) : c ∉ text.toList :=
  notMem_of_text? h (Option.filter_eq_some_iff.1 htext).1

end Bag

namespace Node

variable {c : Char} {node : Node}

/-- No text property of the node or of a descendant has the character. -/
def lacks (c : Char) (node : Node) : Bool := node.walk.all fun part => Bag.lacks c part.props

lemma walkAll_eq_flatMap {τ : Type} [Textual τ] (nodes : List (Node τ)) :
    walkAll nodes = nodes.flatMap walk := by
  induction nodes with
  | nil => rfl
  | cons node nodes ih => rw [walkAll, ih, List.flatMap_cons]

/-- What holds of all parts of a node holds of it and of all parts of its children. -/
lemma forall_mem_walk_iff {τ : Type} [Textual τ] {P : Node τ → Prop} {node : Node τ} :
    (∀ part ∈ node.walk, P part) ↔ P node ∧ ∀ child ∈ node.children, ∀ part ∈ child.walk, P part := by
  rw [walk_eq, walkAll_eq_flatMap, List.forall_mem_cons]
  simp only [List.mem_flatMap, forall_exists_index, and_imp]
  exact and_congr_right fun _ => ⟨fun h child hchild part => h part child hchild,
    fun h part child hchild => h child hchild part⟩

lemma walkAll_singleton (node : Node) : walkAll [node] = node.walk := by
  rw [walkAll, walkAll, List.append_nil]

lemma forall_mem_walkAll_cons {P : Node → Prop} {nodes : List Node} :
    (∀ part ∈ walkAll (node :: nodes), P part) ↔
      P node ∧ (∀ part ∈ walkAll node.children, P part) ∧ ∀ part ∈ walkAll nodes, P part := by
  rw [walkAll, walk_eq, List.cons_append, List.forall_mem_cons, List.forall_mem_append]

theorem lacks_iff : node.lacks c = true ↔
    Bag.lacks c node.props = true ∧ ∀ child ∈ node.children, child.lacks c = true := by
  rw [lacks, walk_eq, walkAll_eq_flatMap, List.all_cons, Bool.and_eq_true, List.all_flatMap,
    List.all_eq_true]
  rfl

lemma notMem_ownText (h : Bag.lacks c node.props = true) : c ∉ node.ownText.toList := by
  rw [ownText]
  split
  · exact Bag.notMem_textOr h _
  · exact List.not_mem_nil

mutual

theorem notMem_textContent : ∀ node : Node, node.lacks c = true → c ∉ node.textContent.toList
  | ⟨_, _, children, _⟩, h => by
    obtain ⟨hprops, hchildren⟩ := lacks_iff.1 h
    rw [textContent_eq, String.toList_append, List.mem_append, not_or]
    exact ⟨notMem_ownText hprops, notMem_textContents children hchildren⟩

theorem notMem_textContents : ∀ nodes : List Node, (∀ node ∈ nodes, node.lacks c = true) →
    c ∉ (textContents nodes).toList
  | [], _ => List.not_mem_nil
  | node :: nodes, h => by
    obtain ⟨hnode, hnodes⟩ := List.forall_mem_cons.1 h
    rw [textContents, String.toList_append, List.mem_append, not_or]
    exact ⟨notMem_textContent node hnode, notMem_textContents nodes hnodes⟩

end

theorem notMem_plainText (h : node.lacks c = true) : c ∉ node.plainText.toList := by
  rw [plainText]
  split
  · next hsource => exact Bag.notMem_of_filled? (lacks_iff.1 h).1 hsource
  · exact notMem_textContent node h

end Node

end Interchange
