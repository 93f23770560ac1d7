import Interchange.Proofs.Document.Contents
import Interchange.Proofs.Transform.Rebuilding

/-!
# What structural transforms keep

Merging text, unwrapping, shifting headings and dropping the source change the shape of a tree and
nothing that it says. A pipeline of them always succeeds and keeps the text, provided that pieces of
text have no parts; each transform sees to that for the next one.
-/
namespace Interchange

namespace Node

/-- No piece of text in the tree has parts of its own. -/
def HasTextLeaves (node : Node) : Prop := ∀ part ∈ node.walk, part.kind = .text → part.children = []

instance (node : Node) : Decidable node.HasTextLeaves :=
  inferInstanceAs (Decidable (∀ part ∈ node.walk, _ → _))

lemma hasTextLeaves_iff {node : Node} : node.HasTextLeaves ↔
    (node.kind = .text → node.children = []) ∧ ∀ child ∈ node.children, child.HasTextLeaves :=
  forall_mem_walk_iff

/-- The second node says what the first one says, and its pieces of text have no parts. -/
structure SaysSame (node other : Node) : Prop where
  text : other.textContent = node.textContent
  leaves : other.HasTextLeaves

/-- The same of two sequences of nodes. -/
structure SayAllSame (nodes others : List Node) : Prop where
  text : textContents others = textContents nodes
  leaves : ∀ other ∈ others, other.HasTextLeaves

lemma sayAllSame_nil : SayAllSame [] [] := ⟨rfl, List.forall_mem_nil _⟩

lemma SayAllSame.cons {node other : Node} {nodes others : List Node} (h : SaysSame node other)
    (hall : SayAllSame nodes others) : SayAllSame (node :: nodes) (other :: others) := by
  refine ⟨?_, List.forall_mem_cons.2 ⟨h.leaves, hall.leaves⟩⟩
  rw [textContents, textContents, h.text, hall.text]

/-- A node keeps what it says when its own text stays and its parts say the same. -/
lemma SayAllSame.node {node other : Node} (hparts : SayAllSame node.children other.children)
    (hkind : other.kind = node.kind) (hown : other.ownText = node.ownText)
    (hleaf : node.kind = .text → other.children = []) : SaysSame node other := by
  refine ⟨?_, hasTextLeaves_iff.2 ⟨fun htext => hleaf (hkind ▸ htext), hparts.leaves⟩⟩
  rw [textContent_eq, textContent_eq, hown, hparts.text]

lemma textContent_of_leaf {node : Node} (h : node.children = []) :
    node.textContent = node.ownText := by
  rw [textContent_eq, h, textContents, String.append_empty]

lemma ownText_of_text {node : Node} (h : node.kind = .text) :
    node.ownText = Bag.textOr node.props Key.content := by
  rw [ownText, h]
  rfl

lemma textOr_insertText (bag : Bag) (name text : String) :
    Bag.textOr (bag.insert name (.text text)) name = text := by
  simp [Bag.textOr, Bag.text?]

/-- Two pieces of text that are merged say what they said one after the other. -/
lemma saysSame_merge {left right : Node} (h : canMerge left right = true)
    (hleft : left.HasTextLeaves) (hright : right.HasTextLeaves) :
    (merge left right).textContent = left.textContent ++ right.textContent ∧
      (merge left right).HasTextLeaves := by
  simp only [canMerge, Bool.and_eq_true, beq_iff_eq] at h
  obtain ⟨⟨hleftText, hrightText⟩, -⟩ := h
  have hleftLeaf := (hasTextLeaves_iff.1 hleft).1 hleftText
  have hrightLeaf := (hasTextLeaves_iff.1 hright).1 hrightText
  have hleaf : (merge left right).children = [] := hleftLeaf
  constructor
  · rw [textContent_of_leaf hleaf, textContent_of_leaf hleftLeaf, textContent_of_leaf hrightLeaf,
      ownText_of_text hleftText, ownText_of_text hrightText]
    have hkind : (merge left right).kind = .text := hleftText
    rw [ownText_of_text hkind]
    exact textOr_insertText left.props Key.content _
  · refine hasTextLeaves_iff.2 ⟨fun _ => hleaf, ?_⟩
    rw [hleaf]
    exact List.forall_mem_nil _

/-- The induction is on the nodes behind the one that others are merged into. -/
lemma sayAllSame_mergeRun {last : Node} {nodes : List Node} (hlast : last.HasTextLeaves)
    (hnodes : ∀ node ∈ nodes, node.HasTextLeaves) :
    SayAllSame (last :: nodes) (mergeRun last nodes) := by
  induction nodes generalizing last with
  | nil => exact ⟨rfl, List.forall_mem_singleton.2 hlast⟩
  | cons node nodes ih =>
    obtain ⟨hnode, hrest⟩ := List.forall_mem_cons.1 hnodes
    rw [mergeRun]
    split
    · next hmerge =>
      obtain ⟨htext, hleaves⟩ := saysSame_merge hmerge hlast hnode
      have hrun := ih hleaves hrest
      refine ⟨?_, hrun.leaves⟩
      rw [hrun.text, textContents, htext, textContents, textContents, String.append_assoc]
    · exact (ih hnode hrest).cons ⟨rfl, hlast⟩

lemma sayAllSame_mergeAdjacent {nodes : List Node} (h : ∀ node ∈ nodes, node.HasTextLeaves) :
    SayAllSame nodes (mergeAdjacent nodes) := by
  cases nodes with
  | nil => exact sayAllSame_nil
  | cons node nodes =>
    obtain ⟨hnode, hnodes⟩ := List.forall_mem_cons.1 h
    exact sayAllSame_mergeRun hnode hnodes

mutual

theorem saysSame_mergeText : ∀ node : Node, node.HasTextLeaves → SaysSame node node.mergeText
  | ⟨kind, props, children, span⟩, h => by
    obtain ⟨hleaf, hchildren⟩ := hasTextLeaves_iff.1 h
    have hparts := sayAllSame_mergeTextAll children hchildren
    have hmerged := sayAllSame_mergeAdjacent hparts.leaves
    rw [mergeText]
    refine SayAllSame.node ⟨hmerged.text.trans hparts.text, hmerged.leaves⟩ rfl rfl fun htext => ?_
    have hnone : children = [] := hleaf htext
    rw [hnone]
    rfl

theorem sayAllSame_mergeTextAll : ∀ nodes : List Node, (∀ node ∈ nodes, node.HasTextLeaves) →
    SayAllSame nodes (mergeTextAll nodes)
  | [], _ => sayAllSame_nil
  | node :: nodes, h => by
    obtain ⟨hnode, hnodes⟩ := List.forall_mem_cons.1 h
    exact (sayAllSame_mergeTextAll nodes hnodes).cons (saysSame_mergeText node hnode)

end

/-- A wrapper bears no text, so its only child says all that it says. -/
lemma saysSame_unwrapped {node : Node} (h : node.HasTextLeaves) : SaysSame node node.unwrapped := by
  rw [unwrapped]
  split
  · next child hchild =>
    split
    · next hwrapper =>
      have hbare : bearsText node.kind = false := by
        simp only [isWrapper, Bool.and_eq_true, Bool.or_eq_true, beq_iff_eq] at hwrapper
        rcases hwrapper.1.1 with hkind | hkind <;> rw [hkind] <;> decide
      refine ⟨?_, (hasTextLeaves_iff.1 h).2 child (hchild ▸ List.mem_singleton_self child)⟩
      rw [textContent_of_parts hbare, hchild, textContents, textContents, String.append_empty]
    · exact ⟨rfl, h⟩
  · exact ⟨rfl, h⟩

mutual

theorem saysSame_unwrapSingle : ∀ node : Node, node.HasTextLeaves →
    SaysSame node node.unwrapSingle
  | ⟨kind, props, children, span⟩, h => by
    obtain ⟨hleaf, hchildren⟩ := hasTextLeaves_iff.1 h
    have hparts := sayAllSame_unwrapSingleAll children hchildren
    have hnode : SaysSame ⟨kind, props, children, span⟩
        ⟨kind, props, unwrapSingleAll children, span⟩ := by
      refine hparts.node rfl rfl fun htext => ?_
      have hnone : children = [] := hleaf htext
      rw [hnone]
      rfl
    have hunwrapped := saysSame_unwrapped hnode.leaves
    rw [unwrapSingle]
    exact ⟨hunwrapped.text.trans hnode.text, hunwrapped.leaves⟩

theorem sayAllSame_unwrapSingleAll : ∀ nodes : List Node, (∀ node ∈ nodes, node.HasTextLeaves) →
    SayAllSame nodes (unwrapSingleAll nodes)
  | [], _ => sayAllSame_nil
  | node :: nodes, h => by
    obtain ⟨hnode, hnodes⟩ := List.forall_mem_cons.1 h
    exact (sayAllSame_unwrapSingleAll nodes hnodes).cons (saysSame_unwrapSingle node hnode)

end

end Node

namespace Node

lemma get?_relevelledProps (f : ℤ → ℤ) (node : Node) {name : String} (h : name ≠ Key.level) :
    (node.relevelledProps f).get? name = node.props.get? name := by
  rw [relevelledProps]
  cases node.headingLevel? with
  | none => rfl
  | some level => exact (OrderedMap.get?_insert ..).trans (if_neg h.symm)

mutual

/-- A level is no text, and is all that a shift changes. -/
theorem saysSame_relevel (f : ℤ → ℤ) : ∀ node : Node, node.HasTextLeaves →
    SaysSame node (node.relevel f)
  | ⟨kind, props, children, span⟩, h => by
    obtain ⟨hleaf, hchildren⟩ := hasTextLeaves_iff.1 h
    have hparts := sayAllSame_relevelAll f children hchildren
    have hcontent := get?_relevelledProps f ⟨kind, props, children, span⟩
      (by decide : Key.content ≠ Key.level)
    rw [relevel]
    refine hparts.node rfl ?_ fun htext => ?_
    · simp only [ownText, Bag.textOr, Bag.text?, hcontent]
    · have hnone : children = [] := hleaf htext
      rw [hnone]
      rfl

theorem sayAllSame_relevelAll (f : ℤ → ℤ) : ∀ nodes : List Node,
    (∀ node ∈ nodes, node.HasTextLeaves) → SayAllSame nodes (relevelAll f nodes)
  | [], _ => sayAllSame_nil
  | node :: nodes, h => by
    obtain ⟨hnode, hnodes⟩ := List.forall_mem_cons.1 h
    exact (sayAllSame_relevelAll f nodes hnodes).cons (saysSame_relevel f node hnode)

end

end Node

namespace Transform

/-- The transforms that change the shape of a document and not what it says. -/
inductive IsStructural : Transform → Prop
  | mergeText : IsStructural .mergeText
  | unwrapSingleChild : IsStructural .unwrapSingleChild
  | dropSourceInfo : IsStructural .dropSourceInfo
  | shiftHeadings {shift : HeadingShift} (h : shift.IsStorable) :
      IsStructural (.shiftHeadings shift)

/-- Every transform that a specification names is structural, but for the one that removes text. -/
theorem isStructural_of_ofSpec {spec : String} {transform : Transform}
    (h : ofSpec spec = .ok transform) (hstrip : transform ≠ .stripEmpty) :
    transform.IsStructural := by
  have hshift (delta : ℤ) : ({ HeadingShift.standard with delta } : HeadingShift).IsStorable :=
    (by decide : HeadingShift.standard.IsStorable)
  have hplain {name : String} (hname : plain? name = some transform) : transform.IsStructural := by
    unfold plain? at hname
    split at hname
    · exact absurd (Option.some.inj hname).symm hstrip
    · exact Option.some.inj hname ▸ .mergeText
    · exact Option.some.inj hname ▸ .unwrapSingleChild
    · exact Option.some.inj hname ▸ .dropSourceInfo
    · cases hname
  unfold ofSpec at h
  dsimp only at h
  split at h
  · unfold shiftBy at h
    split at h
    · exact Except.ok.inj h ▸ .shiftHeadings (hshift 1)
    · split at h
      · exact Except.ok.inj h ▸ .shiftHeadings (hshift _)
      · cases h
  · split at h
    · next hname _ => exact hplain (Except.ok.inj h ▸ hname)
    · cases h
    · cases h

/-- Whether a transform rebuilds the tree. -/
def rebuilds : Transform → Bool
  | .dropSourceInfo => false
  | _ => true

/-- What a structural transform leaves of a document as it was. -/
structure Spares (transform : Transform) (doc next : Document) : Prop where
  content : doc.content.SaysSame next.content
  depth : next.content.depth ≤ doc.content.depth
  metadata : next.metadata = doc.metadata
  resources : next.resources = doc.resources
  dropped : transform = .dropSourceInfo → next.source = none
  source : transform ≠ .dropSourceInfo → next.source = doc.source

/-- One step that rebuilds the tree. -/
theorem exists_makes {transform : Transform} (h : transform.IsStructural)
    (hrebuilds : transform.rebuilds = true) {doc : Document} (hleaves : doc.content.HasTextLeaves) :
    ∃ next, transform.Makes doc next ∧ Spares transform doc next := by
  cases h with
  | mergeText =>
    exact ⟨_, makes_mergeText doc, Node.saysSame_mergeText _ hleaves, Node.depth_mergeText_le _,
      rfl, rfl, nofun, fun _ => rfl⟩
  | unwrapSingleChild =>
    exact ⟨_, makes_unwrapSingleChild doc, Node.saysSame_unwrapSingle _ hleaves,
      Node.depth_unwrapSingle_le _, rfl, rfl, nofun, fun _ => rfl⟩
  | dropSourceInfo => cases hrebuilds
  | shiftHeadings hshift =>
    exact ⟨_, makes_shiftHeadings hshift doc, Node.saysSame_relevel _ _ hleaves,
      Node.depth_relevel_le _ _, rfl, rfl, nofun, fun _ => rfl⟩

/-- What a pipeline gives where there is no room for the tree: the first transform that rebuilds it
fails. -/
def crowded (transforms : List Transform) (result : Document) : Except TransformFault Document :=
  (transforms.find? rebuilds).elim (.ok result) fun first => .error (.tooDeep first.name)

end Transform

end Interchange
