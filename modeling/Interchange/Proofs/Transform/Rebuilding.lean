import Interchange.Document.Builders
import Interchange.Proofs.Document.Texts
import Interchange.Proofs.Failure
import Interchange.Transform.Basic

/-!
# Rebuilding with room enough

Whether there is room to rebuild a tree depends on its depth, and not on what its nodes become. So
a transform of the tree has one result for every document, which it gives whenever there is room and
withholds whenever there is not: what is proved of the result holds of all that the transform ever
gives. No transform makes a tree deeper, so after it there is room for the next one.
-/
namespace Interchange

namespace Node

variable {ε : Type} {tooDeep : ε} {node : Node} {nodes : List Node}

/-- A tree is rebuilt into what its root becomes after its children, unless it has too many
levels. -/
theorem rebuild_eq {make : Node → Except ε Node} {g : Node → Node}
    (h : ∀ node, make { node with children := node.children.map g } = .ok (g node)) (room : ℕ)
    (node : Node) : rebuild tooDeep make room node =
      if node.depth < room then .ok (g node) else .error tooDeep := by
  induction room generalizing node with
  | zero => rfl
  | succ room ih =>
    rw [rebuild, Except.mapM_ite ih]
    simp only [depth_lt_succ_iff]
    by_cases hfits : ∀ child ∈ node.children, child.depth < room
    · rw [if_pos hfits, if_pos hfits, Except.bind_ok, h]
    · rw [if_neg hfits, if_neg hfits]
      rfl

/-- What makes no node deeper than its rewritten children allow makes no tree deeper. -/
lemma depth_le_of_step {g : Node → Node}
    (h : ∀ node, (g node).depth ≤ depthBelow (node.children.map g)) (node : Node) :
    (g node).depth ≤ node.depth := by
  suffices hall : ∀ n, ∀ node : Node, node.depth < n → (g node).depth < n from
    Nat.lt_succ_iff.1 (hall _ node (Nat.lt_succ_self _))
  intro n
  induction n with
  | zero => exact fun node hnode => absurd hnode (Nat.not_lt_zero _)
  | succ n ih =>
    intro node hnode
    refine Nat.lt_succ_of_le ((h node).trans (depthBelow_le_iff.2 (List.forall_mem_map.2 ?_)))
    exact fun part hpart => ih part (depth_lt_succ_iff.1 hnode part hpart)

mutual

def stripEmpty : Node → Node
  | ⟨kind, props, children, span⟩ => ⟨kind, props, stripEmptyAll children, span⟩

/-- The nodes that are not empty once they are stripped themselves. -/
def stripEmptyAll : List Node → List Node
  | [] => []
  | node :: nodes =>
    let stripped := stripEmpty node
    if stripped.isEmptyNode then stripEmptyAll nodes else stripped :: stripEmptyAll nodes

end

mutual

def mergeText : Node → Node
  | ⟨kind, props, children, span⟩ => ⟨kind, props, mergeAdjacent (mergeTextAll children), span⟩

def mergeTextAll : List Node → List Node
  | [] => []
  | node :: nodes => mergeText node :: mergeTextAll nodes

end

mutual

def unwrapSingle : Node → Node
  | ⟨kind, props, children, span⟩ => unwrapped ⟨kind, props, unwrapSingleAll children, span⟩

def unwrapSingleAll : List Node → List Node
  | [] => []
  | node :: nodes => unwrapSingle node :: unwrapSingleAll nodes

end

/-- The level of a heading, when it is a whole number. -/
def headingLevel? (node : Node) : Option ℤ :=
  if node.kind = .heading then Bag.int? node.props Key.level else none

/-- The properties of a node with its level as a heading changed. -/
def relevelledProps (f : ℤ → ℤ) (node : Node) : Bag :=
  match node.headingLevel? with
  | some level => node.props.insert Key.level (.int (Int64.ofInt (f level)))
  | none => node.props

mutual

def relevel (f : ℤ → ℤ) : Node → Node
  | node@⟨kind, _, children, span⟩ => ⟨kind, node.relevelledProps f, relevelAll f children, span⟩

def relevelAll (f : ℤ → ℤ) : List Node → List Node
  | [] => []
  | node :: nodes => relevel f node :: relevelAll f nodes

end

lemma stripEmptyAll_eq_filter (nodes : List Node) :
    stripEmptyAll nodes = (nodes.map stripEmpty).filter (!·.isEmptyNode) := by
  induction nodes with
  | nil => rfl
  | cons node nodes ih =>
    rw [stripEmptyAll, ih, List.map_cons, List.filter_cons]
    cases node.stripEmpty.isEmptyNode <;> rfl

lemma mergeTextAll_eq_map (nodes : List Node) : mergeTextAll nodes = nodes.map mergeText := by
  induction nodes with
  | nil => rfl
  | cons node nodes ih => rw [mergeTextAll, ih, List.map_cons]

lemma unwrapSingleAll_eq_map (nodes : List Node) :
    unwrapSingleAll nodes = nodes.map unwrapSingle := by
  induction nodes with
  | nil => rfl
  | cons node nodes ih => rw [unwrapSingleAll, ih, List.map_cons]

lemma relevelAll_eq_map (f : ℤ → ℤ) (nodes : List Node) :
    relevelAll f nodes = nodes.map (relevel f) := by
  induction nodes with
  | nil => rfl
  | cons node nodes ih => rw [relevelAll, ih, List.map_cons]

lemma stripEmpty_eq (node : Node) :
    node.stripEmpty = ({ node with children := node.children.map stripEmpty } : Node).withoutEmpty := by
  obtain ⟨kind, props, children, span⟩ := node
  rw [stripEmpty, stripEmptyAll_eq_filter]
  rfl

lemma mergeText_eq (node : Node) :
    node.mergeText = ({ node with children := node.children.map mergeText } : Node).withMerged := by
  obtain ⟨kind, props, children, span⟩ := node
  rw [mergeText, mergeTextAll_eq_map]
  rfl

lemma unwrapSingle_eq (node : Node) :
    node.unwrapSingle = ({ node with children := node.children.map unwrapSingle } : Node).unwrapped := by
  obtain ⟨kind, props, children, span⟩ := node
  rw [unwrapSingle, unwrapSingleAll_eq_map]

lemma relevel_eq (f : ℤ → ℤ) (node : Node) : node.relevel f =
    ⟨node.kind, node.relevelledProps f, node.children.map (relevel f), node.span⟩ := by
  obtain ⟨kind, props, children, span⟩ := node
  rw [relevel, relevelAll_eq_map]

lemma depthBelow_mono {others : List Node} (h : nodes ⊆ others) : depthBelow nodes ≤ depthBelow others :=
  depthBelow_le_iff.2 fun node hnode => depthBelow_le_iff.1 le_rfl node (h hnode)

lemma depth_stripEmpty_le (node : Node) : node.stripEmpty.depth ≤ node.depth := by
  refine depth_le_of_step (fun node => ?_) node
  rw [stripEmpty_eq, withoutEmpty, depth_eq]
  exact depthBelow_mono (List.filter_subset_self _)

lemma depth_unwrapped_le (node : Node) : node.unwrapped.depth ≤ node.depth := by
  rw [unwrapped]
  split
  · next child hchild =>
    split
    · have hbelow : child.depth < node.depth := by
        rw [depth_eq node, hchild]
        exact depthBelow_le_iff.1 le_rfl child (List.mem_singleton_self child)
      exact hbelow.le
    · rfl
  · rfl

lemma depth_unwrapSingle_le (node : Node) : node.unwrapSingle.depth ≤ node.depth := by
  refine depth_le_of_step (fun node => ?_) node
  rw [unwrapSingle_eq]
  exact (depth_unwrapped_le _).trans_eq (depth_eq _)

/-- Merging puts pieces of text into the first of them, which keeps its children. -/
lemma depthBelow_mergeRun_le (last : Node) (nodes : List Node) :
    depthBelow (mergeRun last nodes) ≤ depthBelow (last :: nodes) := by
  induction nodes generalizing last with
  | nil => rfl
  | cons node nodes ih =>
    have hlast : (merge last node).depth = last.depth := by
      rw [depth_eq, depth_eq]
      rfl
    rw [mergeRun]
    split
    · have hmerged := ih (merge last node)
      rw [depthBelow, hlast] at hmerged
      rw [depthBelow, depthBelow]
      omega
    · have hrest := ih node
      rw [depthBelow, depthBelow]
      omega

lemma depth_mergeText_le (node : Node) : node.mergeText.depth ≤ node.depth := by
  refine depth_le_of_step (fun node => ?_) node
  rw [mergeText_eq, withMerged, depth_eq]
  cases node.children.map mergeText with
  | nil => rfl
  | cons first rest => exact depthBelow_mergeRun_le first rest

lemma depth_relevel_le (f : ℤ → ℤ) (node : Node) : (node.relevel f).depth ≤ node.depth := by
  refine depth_le_of_step (fun node => ?_) node
  rw [relevel_eq, depth_eq]

/-- Spans in one another, more than the given number by one. -/
def tower : ℕ → Node
  | 0 => .leaf .span
  | n + 1 => .branch .span [tower n]

lemma depth_tower (n : ℕ) : (tower n).depth = n := by
  induction n with
  | zero => rfl
  | succ n ih =>
    rw [tower, branch, depth_eq, depthBelow, depthBelow, ih]
    omega

lemma kind_of_mem_walk_tower {n : ℕ} {part : Node} (h : part ∈ (tower n).walk) :
    part.kind = .span := by
  induction n with
  | zero =>
    rw [tower, walk_eq, leaf, walkAll, List.mem_singleton] at h
    rw [h]
  | succ n ih =>
    rw [tower, branch, walk_eq, walkAll_singleton, List.mem_cons] at h
    rcases h with rfl | hbelow
    · rfl
    · exact ih hbelow

end Node

/-- A document with a tower in it. -/
def Document.tower (n : ℕ) : Document := .ofContent (.document [Node.tower n])

lemma Document.le_depth_tower (n : ℕ) : n ≤ (tower n).content.depth := by
  change n ≤ max ((Node.tower n).depth + 1) 0
  rw [Node.depth_tower, Nat.max_zero]
  exact Nat.le_succ n

lemma Document.kind_of_mem_walk_tower {n : ℕ} {part : Node} (h : part ∈ (tower n).content.walk) :
    part.kind = .document ∨ part.kind = .span := by
  rw [Node.walk_eq, List.mem_cons] at h
  rcases h with rfl | hbelow
  · exact .inl rfl
  · change part ∈ Node.walkAll [Node.tower n] at hbelow
    rw [Node.walkAll_singleton] at hbelow
    exact .inr (Node.kind_of_mem_walk_tower hbelow)

namespace HeadingShift

/-- A shift whose bounds are numbers that a property can hold. -/
def IsStorable (shift : HeadingShift) : Prop :=
  Int64.minValue.toInt ≤ shift.least ∧ shift.most ≤ Int64.maxValue.toInt

instance (shift : HeadingShift) : Decidable shift.IsStorable := inferInstanceAs (Decidable (_ ∧ _))

variable {shift : HeadingShift}

lemma least_le_level (shift : HeadingShift) (n : ℤ) : shift.least ≤ shift.level n := by
  have hordered := shift.ordered
  rw [level]
  omega

lemma level_le_most (shift : HeadingShift) (n : ℤ) : shift.level n ≤ shift.most := by
  rw [level]
  omega

lemma ofInt_level (h : shift.IsStorable) (n : ℤ) :
    Value.ofInt (shift.level n) = .ok (.int (Int64.ofInt (shift.level n)) : Value) := by
  have hrange : Int64.minValue.toInt ≤ shift.level n ∧ shift.level n ≤ Int64.maxValue.toInt :=
    ⟨h.1.trans (shift.least_le_level n), (shift.level_le_most n).trans h.2⟩
  rw [Value.ofInt, Value.ofInt?, if_pos hrange]

lemma props_eq_relevelledProps (h : shift.IsStorable) (node : Node) :
    shift.props node.kind node.props = .ok (node.relevelledProps shift.level) := by
  rw [HeadingShift.props, Node.relevelledProps, Node.headingLevel?]
  cases Bag.int? node.props Key.level with
  | none => simp
  | some n =>
    dsimp only
    split
    · rw [ofInt_level h]
      rfl
    · rfl

/-- A shift between storable bounds never meets a level that no property can hold. -/
lemma moved_eq (h : shift.IsStorable) (node : Node) :
    shift.moved node = .ok { node with props := node.relevelledProps shift.level } := by
  rw [moved, props_eq_relevelledProps h]
  rfl

end HeadingShift

namespace Transform

/-- The transform gives the second document for the first whenever there is room for its levels, and
fails when there is not. -/
def Makes (transform : Transform) (doc out : Document) : Prop :=
  ∀ room, transform.apply room doc =
    if doc.content.depth < room then .ok out else .error (.tooDeep transform.name)

variable {transform : Transform} {doc out : Document} {room : ℕ}

lemma Makes.apply_of_lt (h : transform.Makes doc out) (hroom : doc.content.depth < room) :
    transform.apply room doc = .ok out := by
  rw [h room, if_pos hroom]

lemma Makes.apply_of_le (h : transform.Makes doc out) (hroom : room ≤ doc.content.depth) :
    transform.apply room doc = .error (.tooDeep transform.name) := by
  rw [h room, if_neg hroom.not_gt]

lemma rewrite_eq {make : Node → Except TransformFault Node} {g : Node → Node}
    (h : ∀ node, make { node with children := node.children.map g } = .ok (g node)) (room : ℕ)
    (doc : Document) : transform.rewrite make room doc =
      if doc.content.depth < room then .ok { doc with content := g doc.content }
      else .error (.tooDeep transform.name) := by
  rw [rewrite, Node.rebuild_eq h]
  by_cases hroom : doc.content.depth < room
  · rw [if_pos hroom, if_pos hroom]
  · rw [if_neg hroom, if_neg hroom]

lemma makes_stripEmpty (doc : Document) :
    Makes .stripEmpty doc { doc with content := doc.content.stripEmpty } := fun room =>
  rewrite_eq (fun node => by rw [Node.stripEmpty_eq]) room doc

lemma makes_mergeText (doc : Document) :
    Makes .mergeText doc { doc with content := doc.content.mergeText } := fun room =>
  rewrite_eq (fun node => by rw [Node.mergeText_eq]) room doc

lemma makes_shiftHeadings {shift : HeadingShift} (h : shift.IsStorable) (doc : Document) :
    Makes (.shiftHeadings shift) doc { doc with content := doc.content.relevel shift.level } :=
  fun room => rewrite_eq (fun node => by rw [HeadingShift.moved_eq h, Node.relevel_eq]; rfl) room doc

lemma makes_unwrapSingleChild (doc : Document) :
    Makes .unwrapSingleChild doc { doc with content := doc.content.unwrapSingle } := fun room =>
  rewrite_eq (fun node => by rw [Node.unwrapSingle_eq]) room doc

end Transform

end Interchange
