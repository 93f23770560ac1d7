import Interchange.Proofs.Document.StyledText
import Interchange.Proofs.Text.Letters

/-!
# What nodes say

The text of a node that bears none itself is that of its children, and a wrapper says what is in it.
Several nodes say one after the other what each of them says.
-/
namespace Interchange.Node

open Text (letters)

/-- A node that bears no text itself has the text of its parts. -/
lemma textContent_of_parts {node : Node} (h : bearsText node.kind = false) :
    node.textContent = textContents node.children := by
  rw [textContent_eq, ownText, h]
  exact String.empty_append

lemma textContent_text (content : String) : (text content).textContent = content := by
  rw [textContent_eq, ownText_text]
  exact String.append_empty

lemma textContent_image (url alt resource : Option String) :
    (image url alt resource).textContent = "" := by
  cases url <;> cases alt <;> cases resource <;> rfl

lemma textContent_wrapped {kind : Kind} (h : bearsText kind = false) (node : Node) :
    (branch kind [node]).textContent = node.textContent := by
  rw [textContent_of_parts h]
  exact String.append_empty

mutual

/-- The text of a tree is the text of its nodes, one by one. -/
theorem textContent_eq_flatMap_walk : ∀ node : Node,
    node.textContent.toList = node.walk.flatMap fun part => part.ownText.toList
  | ⟨kind, props, children, span⟩ => by
    rw [textContent_eq, String.toList_append, textContents_eq_flatMap_walkAll children, walk_eq,
      List.flatMap_cons]

theorem textContents_eq_flatMap_walkAll : ∀ nodes : List Node,
    (textContents nodes).toList = (walkAll nodes).flatMap fun part => part.ownText.toList
  | [] => rfl
  | node :: nodes => by
    rw [textContents, String.toList_append, textContent_eq_flatMap_walk node,
      textContents_eq_flatMap_walkAll nodes, walkAll, List.flatMap_append]

end

def lettersOf (nodes : List Node) : List Char := letters (textContents nodes).toList

@[simp] lemma lettersOf_nil : lettersOf [] = [] := rfl

lemma lettersOf_cons (node : Node) (nodes : List Node) :
    lettersOf (node :: nodes) = letters node.textContent.toList ++ lettersOf nodes := by
  rw [lettersOf, textContents, String.toList_append, Text.letters_append]
  rfl

@[simp] lemma lettersOf_append (nodes others : List Node) :
    lettersOf (nodes ++ others) = lettersOf nodes ++ lettersOf others := by
  simp only [lettersOf, textContents_eq_flatMap, List.flatMap_append, Text.letters_append]

lemma lettersOf_singleton (node : Node) : lettersOf [node] = letters node.textContent.toList := by
  rw [lettersOf_cons, lettersOf_nil, List.append_nil]

lemma lettersOf_children {node : Node} (h : bearsText node.kind = false) :
    letters node.textContent.toList = lettersOf node.children := by
  rw [textContent_of_parts h, lettersOf]

lemma lettersOf_eq_nil {nodes : List Node} (h : ∀ node ∈ nodes, node.textContent = "") :
    lettersOf nodes = [] := by
  rw [lettersOf, textContents_eq_flatMap, Text.letters_flatMap, List.flatMap_eq_nil_iff]
  intro node hnode
  rw [h node hnode]
  rfl

/-- What is said item by item, the nodes say together. -/
lemma lettersOf_eq_flatMap {α : Type} {text : α → List Char} {items : List α} {nodes : List Node}
    (h : List.Forall₂ (fun item node => letters node.textContent.toList = letters (text item))
      items nodes) : lettersOf nodes = letters (items.flatMap text) := by
  induction h with
  | nil => rfl
  | cons hitem _ ih =>
    rw [lettersOf_cons, hitem, ih, List.flatMap_cons, Text.letters_append]

/-- What several items say, their nodes say together. -/
lemma lettersOf_flatten {α : Type} {text : α → List Char} {items : List α} {parts : List (List Node)}
    (h : List.Forall₂ (fun item nodes => lettersOf nodes = letters (text item)) items parts) :
    lettersOf parts.flatten = letters (items.flatMap text) := by
  induction h with
  | nil => rfl
  | cons hitem _ ih =>
    rw [List.flatten_cons, lettersOf_append, hitem, ih, List.flatMap_cons, Text.letters_append]

end Interchange.Node
