import Interchange.Proofs.Transform.Keeping

/-!
# Nothing empty is left

Whether a node goes can be told before anything has gone: it is hollow when it is blank text, or a
paragraph, span or div with nothing but hollow nodes in it. One pass takes away the hollow nodes
below the root and no others. So nothing empty is left there, a second pass finds nothing to do, and
no letter is lost.
-/
namespace Interchange

namespace Node

variable {node : Node} {nodes : List Node}

/-- Text without a content, or with one of blanks only. -/
def IsBlankPiece (node : Node) : Prop :=
  node.kind = .text ∧ ∀ content, Bag.text? node.props Key.content = some content →
    ∀ c ∈ content.toList, Text.isBlank c = true

/-- The kinds of nodes that say nothing without parts. -/
def vessels : List Kind := [.paragraph, .span, .div]

def IsEmpty (node : Node) : Prop :=
  node.IsBlankPiece ∨ node.kind ∈ vessels ∧ node.children = []

mutual

/-- Blank text, or a paragraph, span or div with nothing but such nodes in it. -/
def isHollow : Node → Bool
  | node@⟨kind, _, children, _⟩ => node.isBlankText || decide (kind ∈ vessels) && areHollow children

def areHollow : List Node → Bool
  | [] => true
  | node :: nodes => isHollow node && areHollow nodes

end

lemma isBlankText_iff : node.isBlankText = true ↔ node.IsBlankPiece := by
  rw [isBlankText, IsBlankPiece, Bool.and_eq_true, beq_iff_eq, Bag.textOr, Text.isBlankLine,
    List.all_eq_true]
  cases Bag.text? node.props Key.content <;> simp

lemma isEmptyContainer_iff :
    node.isEmptyContainer = true ↔ node.kind ∈ vessels ∧ node.children = [] := by
  simp [isEmptyContainer, vessels, or_assoc]

lemma isEmptyNode_iff : node.isEmptyNode = true ↔ node.IsEmpty := by
  rw [isEmptyNode, Bool.or_eq_true, isBlankText_iff, isEmptyContainer_iff, IsEmpty]

lemma areHollow_iff : areHollow nodes = true ↔ ∀ node ∈ nodes, node.isHollow = true := by
  induction nodes with
  | nil => exact iff_of_true rfl (List.forall_mem_nil _)
  | cons node nodes ih => rw [areHollow, Bool.and_eq_true, ih, List.forall_mem_cons]

lemma isHollow_iff : node.isHollow = true ↔
    node.IsBlankPiece ∨ node.kind ∈ vessels ∧ ∀ part ∈ node.children, part.isHollow = true := by
  obtain ⟨kind, props, children, span⟩ := node
  rw [isHollow, Bool.or_eq_true, isBlankText_iff, Bool.and_eq_true, decide_eq_true_iff,
    areHollow_iff]

mutual

/-- A node is empty after its parts have been stripped just if it was hollow before. -/
theorem isEmpty_stripEmpty_iff : ∀ node : Node,
    node.stripEmpty.IsEmpty ↔ node.isHollow = true
  | ⟨kind, props, children, span⟩ => by
    rw [isHollow_iff, stripEmpty, IsEmpty]
    exact or_congr Iff.rfl (and_congr_right' (stripEmptyAll_eq_nil_iff children))

theorem stripEmptyAll_eq_nil_iff : ∀ nodes : List Node,
    stripEmptyAll nodes = [] ↔ ∀ node ∈ nodes, node.isHollow = true
  | [] => iff_of_true rfl (List.forall_mem_nil _)
  | node :: nodes => by
    rw [stripEmptyAll, List.forall_mem_cons, ← isEmpty_stripEmpty_iff node, ← isEmptyNode_iff]
    split
    · next hempty => rw [and_iff_right hempty, stripEmptyAll_eq_nil_iff nodes]
    · next hkept => exact iff_of_false (List.cons_ne_nil _ _) fun h => hkept h.1

end

lemma stripEmptyAll_eq_map (nodes : List Node) :
    stripEmptyAll nodes = (nodes.filter (!·.isHollow)).map stripEmpty := by
  induction nodes with
  | nil => rfl
  | cons node nodes ih =>
    have hnode : node.stripEmpty.isEmptyNode = node.isHollow :=
      Bool.eq_iff_iff.2 (isEmptyNode_iff.trans (isEmpty_stripEmpty_iff node))
    rw [stripEmptyAll, hnode, ih]
    cases hhollow : node.isHollow <;> simp [hhollow]

/-- The second node is what is left of the first: it says the same of itself and has in it, in their
order, what is left of those parts that are not hollow. -/
inductive LeftOf : Node → Node → Prop
  | intro {node out : Node} (kind : out.kind = node.kind) (props : out.props = node.props)
    (span : out.span = node.span)
    (parts : List.Forall₂ LeftOf (node.children.filter (!·.isHollow)) out.children) :
    LeftOf node out

mutual

theorem leftOf_stripEmpty : ∀ node : Node, LeftOf node node.stripEmpty
  | ⟨kind, props, children, span⟩ => by
    rw [stripEmpty, stripEmptyAll_eq_map]
    refine .intro rfl rfl rfl (List.forall₂_map_right_iff.2 (List.forall₂_same.2 ?_))
    exact fun part hpart => leftOf_stripEmptyAll children part (List.mem_of_mem_filter hpart)

theorem leftOf_stripEmptyAll : ∀ nodes : List Node, ∀ node ∈ nodes, LeftOf node node.stripEmpty
  | [] => List.forall_mem_nil _
  | node :: nodes => List.forall_mem_cons.2 ⟨leftOf_stripEmpty node, leftOf_stripEmptyAll nodes⟩

end

mutual

theorem not_isEmpty_below_stripEmpty : ∀ node : Node,
    ∀ part ∈ walkAll node.stripEmpty.children, ¬ part.IsEmpty
  | ⟨_, _, children, _⟩ => not_isEmpty_of_mem_stripEmptyAll children

theorem not_isEmpty_of_mem_stripEmptyAll : ∀ nodes : List Node,
    ∀ part ∈ walkAll (stripEmptyAll nodes), ¬ part.IsEmpty
  | [] => List.forall_mem_nil _
  | node :: nodes => by
    have hrest := not_isEmpty_of_mem_stripEmptyAll nodes
    rw [stripEmptyAll]
    split
    · exact hrest
    · next hkept =>
      have hnode : ¬ node.stripEmpty.IsEmpty := fun hempty => hkept (isEmptyNode_iff.2 hempty)
      exact forall_mem_walkAll_cons.2 ⟨hnode, not_isEmpty_below_stripEmpty node, hrest⟩

end

mutual

theorem stripEmpty_of_not_isEmpty : ∀ node : Node,
    (∀ part ∈ walkAll node.children, ¬ part.IsEmpty) → node.stripEmpty = node
  | ⟨_, _, children, _⟩, h => by rw [stripEmpty, stripEmptyAll_of_not_isEmpty children h]

theorem stripEmptyAll_of_not_isEmpty : ∀ nodes : List Node,
    (∀ part ∈ walkAll nodes, ¬ part.IsEmpty) → stripEmptyAll nodes = nodes
  | [], _ => rfl
  | node :: nodes, h => by
    obtain ⟨hnode, hparts, hrest⟩ := forall_mem_walkAll_cons.1 h
    rw [stripEmptyAll, stripEmpty_of_not_isEmpty node hparts,
      stripEmptyAll_of_not_isEmpty nodes hrest]
    exact if_neg fun hempty => hnode (isEmptyNode_iff.1 hempty)

end

open Text (letters)

lemma letters_of_isEmpty (h : node.IsEmpty) (hleaf : node.kind = .text → node.children = []) :
    letters node.textContent.toList = [] := by
  rcases h with ⟨htext, hblank⟩ | ⟨hkind, hnone⟩
  · rw [textContent_of_leaf (hleaf htext), ownText_of_text htext, Bag.textOr,
      Text.letters_eq_nil_iff, Text.isBlankLine, List.all_eq_true]
    cases hcontent : Bag.text? node.props Key.content with
    | none => exact List.forall_mem_nil _
    | some content => exact hblank content hcontent
  · have hbare : bearsText node.kind = false := by
      simp only [vessels, List.mem_cons, List.not_mem_nil, or_false] at hkind
      rcases hkind with hkind | hkind | hkind <;> rw [hkind] <;> decide
    rw [textContent_of_parts hbare, hnone]
    rfl

mutual

theorem letters_stripEmpty : ∀ node : Node, node.HasTextLeaves →
    letters node.stripEmpty.textContent.toList = letters node.textContent.toList
  | ⟨kind, props, children, span⟩, h => by
    have hparts := lettersOf_stripEmptyAll children (hasTextLeaves_iff.1 h).2
    rw [lettersOf, lettersOf] at hparts
    rw [stripEmpty, textContent_eq, textContent_eq, String.toList_append, String.toList_append,
      Text.letters_append, Text.letters_append, hparts]
    rfl

theorem lettersOf_stripEmptyAll : ∀ nodes : List Node, (∀ node ∈ nodes, node.HasTextLeaves) →
    lettersOf (stripEmptyAll nodes) = lettersOf nodes
  | [], _ => rfl
  | node :: nodes, h => by
    obtain ⟨hnode, hnodes⟩ := List.forall_mem_cons.1 h
    have hfirst := letters_stripEmpty node hnode
    have hrest := lettersOf_stripEmptyAll nodes hnodes
    rw [stripEmptyAll, lettersOf_cons, ← hrest, ← hfirst]
    split
    · next hempty =>
      have hleaf : node.stripEmpty.kind = .text → node.stripEmpty.children = [] := by
        obtain ⟨kind, props, children, span⟩ := node
        intro htext
        have hnone : children = [] := (hasTextLeaves_iff.1 hnode).1 htext
        rw [hnone]
        rfl
      rw [letters_of_isEmpty (isEmptyNode_iff.1 hempty) hleaf, List.nil_append]
    · exact lettersOf_cons _ _

end

end Node

namespace Transform

/-- A document has one result of stripping, which is given whenever there is room for the tree, and
once is enough: nothing below the root of the result is empty, and stripping once more leaves it as
it is. What is left of the root is the root, and of every other node it is the node, in its place,
unless it was hollow. The letters of the text are the same, if pieces of text have no parts. -/
theorem stripEmpty_normalForm (doc : Document) :
    ∃ stripped, Makes .stripEmpty doc stripped ∧
      (∀ part ∈ Node.walkAll stripped.content.children, ¬ part.IsEmpty) ∧
      Makes .stripEmpty stripped stripped ∧
      stripped.content.depth ≤ doc.content.depth ∧
      Node.LeftOf doc.content stripped.content ∧
      (doc.content.HasTextLeaves → Text.letters stripped.content.textContent.toList =
        Text.letters doc.content.textContent.toList) := by
  have hkept := Node.not_isEmpty_below_stripEmpty doc.content
  have hagain := makes_stripEmpty { doc with content := doc.content.stripEmpty }
  dsimp only at hagain
  rw [Node.stripEmpty_of_not_isEmpty _ hkept] at hagain
  exact ⟨_, makes_stripEmpty doc, hkept, hagain, Node.depth_stripEmpty_le doc.content,
    Node.leftOf_stripEmpty doc.content, Node.letters_stripEmpty doc.content⟩

/-- A div goes with a paragraph in it that has only a blank; a heading stays although nothing is
left in it. -/
example :
    let content := Node.document [.branch .div [.paragraph [.text " "]], .heading 1 [.text ""]]
    content.stripEmpty.walk.map Node.kind = [.document, .heading] := by
  decide

end Transform

end Interchange
