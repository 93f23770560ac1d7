import Interchange.Proofs.Transform.Keeping

/-!
# Shifts of headings add up

Two shifts in the same direction come to one shift by their sum when every level begins within the
bounds: a level that the first one stops at a bound stays there in the second, and the sum would
take it beyond the same bound. A shift moves the whole levels of headings, without changing their
order, and leaves all else as it is.
-/
namespace Interchange

namespace Node

variable {f g : ℤ → ℤ} {least most : ℤ} {node : Node}

/-- Every whole level of a heading in the tree lies between two bounds. -/
def LevelsWithin (least most : ℤ) (node : Node) : Prop :=
  ∀ part ∈ node.walk, ∀ level ∈ part.headingLevel?, least ≤ level ∧ level ≤ most

instance (least most : ℤ) (node : Node) : Decidable (node.LevelsWithin least most) :=
  inferInstanceAs (Decidable (∀ part ∈ node.walk, ∀ level ∈ part.headingLevel?, _))

lemma levelsWithin_iff : node.LevelsWithin least most ↔
    (∀ level ∈ node.headingLevel?, least ≤ level ∧ level ≤ most) ∧
      ∀ part ∈ node.children, part.LevelsWithin least most :=
  forall_mem_walk_iff

/-- The second tree is the first with a function applied to the whole levels of its headings. Where
there is no such level the properties are the same; where there is one, the other properties are,
and all names stand in their order. -/
inductive Relevelled (f : ℤ → ℤ) : Node → Node → Prop
  | intro {node out : Node} (kind : out.kind = node.kind) (span : out.span = node.span)
    (level : out.headingLevel? = node.headingLevel?.map f)
    (unlevelled : node.headingLevel? = none → out.props = node.props)
    (names : out.props.keys = node.props.keys)
    (others : ∀ name ≠ Key.level, out.props.get? name = node.props.get? name)
    (parts : List.Forall₂ (Relevelled f) node.children out.children) : Relevelled f node out

/-- Whatever a level is, a property can hold what the function makes of it. -/
def Storable (f : ℤ → ℤ) : Prop :=
  ∀ n, Int64.minValue.toInt ≤ f n ∧ f n ≤ Int64.maxValue.toInt

lemma toInt_ofInt (hf : Storable f) (n : ℤ) : (Int64.ofInt (f n)).toInt = f n := by
  obtain ⟨hmin, hmax⟩ := hf n
  have hleast : Int64.minValue.toInt = -2 ^ 63 := by decide
  have hmost : Int64.maxValue.toInt = 2 ^ 63 - 1 := by decide
  exact Int64.toInt_ofInt_of_le (by omega) (by omega)

lemma relevelledProps_of_none (h : node.headingLevel? = none) :
    node.relevelledProps f = node.props := by
  rw [relevelledProps, h]

lemma relevelledProps_of_some {level : ℤ} (h : node.headingLevel? = some level) :
    node.relevelledProps f = node.props.insert Key.level (.int (Int64.ofInt (f level))) := by
  rw [relevelledProps, h]

lemma headingLevel?_eq_some_iff {level : ℤ} : node.headingLevel? = some level ↔
    node.kind = .heading ∧ Bag.int? node.props Key.level = some level := by
  simp [headingLevel?]

lemma headingLevel?_relevel (hf : Storable f) (node : Node) :
    (node.relevel f).headingLevel? = node.headingLevel?.map f := by
  obtain ⟨kind, props, children, span⟩ := node
  cases hlevel : headingLevel? ⟨kind, props, children, span⟩ with
  | none =>
    rw [relevel, relevelledProps_of_none hlevel]
    exact hlevel
  | some level =>
    rw [relevel, relevelledProps_of_some hlevel, Option.map_some, headingLevel?_eq_some_iff]
    refine ⟨(headingLevel?_eq_some_iff.1 hlevel).1, ?_⟩
    rw [Bag.int?, OrderedMap.get?_insert, if_pos rfl]
    exact congrArg some (toInt_ofInt hf level)

lemma level_mem_keys {level : ℤ} (h : node.headingLevel? = some level) :
    Key.level ∈ node.props.keys := by
  have hint := (headingLevel?_eq_some_iff.1 h).2
  by_contra hnone
  rw [Bag.int?, OrderedMap.get?_eq_none_iff.2 hnone] at hint
  cases hint

mutual

theorem relevelled_relevel (hf : Storable f) : ∀ node : Node, Relevelled f node (node.relevel f)
  | ⟨kind, props, children, span⟩ => by
    have hlevel := headingLevel?_relevel hf ⟨kind, props, children, span⟩
    have hparts := relevelled_relevelAll hf children
    cases hold : headingLevel? ⟨kind, props, children, span⟩ with
    | none =>
      have hprops : (relevel f ⟨kind, props, children, span⟩).props = props :=
        relevelledProps_of_none hold
      exact .intro rfl rfl hlevel (fun _ => hprops) (congrArg _ hprops)
        (fun name _ => congrArg (OrderedMap.get? · name) hprops) hparts
    | some level =>
      have hprops : (relevel f ⟨kind, props, children, span⟩).props =
          props.insert Key.level (.int (Int64.ofInt (f level))) :=
        relevelledProps_of_some hold
      refine .intro rfl rfl hlevel (fun hnone => ?_) ?_ (fun name hname => ?_) hparts
      · rw [hold] at hnone
        cases hnone
      · rw [hprops]
        exact OrderedMap.keys_insert_of_mem (level_mem_keys hold)
      · rw [hprops, OrderedMap.get?_insert, if_neg (Ne.symm hname)]

theorem relevelled_relevelAll (hf : Storable f) : ∀ nodes : List Node,
    List.Forall₂ (Relevelled f) nodes (relevelAll f nodes)
  | [] => .nil
  | node :: nodes => .cons (relevelled_relevel hf node) (relevelled_relevelAll hf nodes)

end

mutual

theorem levelsWithin_relevel (hf : Storable f) (hbounds : ∀ n, least ≤ f n ∧ f n ≤ most) :
    ∀ node : Node, (node.relevel f).LevelsWithin least most
  | ⟨kind, props, children, span⟩ => by
    refine levelsWithin_iff.2 ⟨fun level hlevel => ?_, levelsWithin_relevelAll hf hbounds children⟩
    rw [headingLevel?_relevel hf, Option.mem_def, Option.map_eq_some_iff] at hlevel
    obtain ⟨old, -, rfl⟩ := hlevel
    exact hbounds old

theorem levelsWithin_relevelAll (hf : Storable f) (hbounds : ∀ n, least ≤ f n ∧ f n ≤ most) :
    ∀ nodes : List Node, ∀ part ∈ relevelAll f nodes, part.LevelsWithin least most
  | [] => List.forall_mem_nil _
  | node :: nodes => List.forall_mem_cons.2
      ⟨levelsWithin_relevel hf hbounds node, levelsWithin_relevelAll hf hbounds nodes⟩

end

/-- Two changes of a level come to one that agrees with them on it. -/
lemma relevelledProps_relevel {both : ℤ → ℤ} (hf : Storable f) {node : Node}
    (h : ∀ level ∈ node.headingLevel?, g (f level) = both level) :
    (node.relevel f).relevelledProps g = node.relevelledProps both := by
  have hlevel := headingLevel?_relevel hf node
  obtain ⟨kind, props, children, span⟩ := node
  cases hold : headingLevel? ⟨kind, props, children, span⟩ with
  | none =>
    rw [hold, Option.map_none] at hlevel
    rw [relevelledProps_of_none hlevel, relevelledProps_of_none hold]
    exact relevelledProps_of_none hold
  | some level =>
    rw [hold, Option.map_some] at hlevel
    rw [relevelledProps_of_some hlevel, relevelledProps_of_some hold, h level hold, relevel,
      relevelledProps_of_some hold, OrderedMap.insert_insert]

mutual

theorem relevel_relevel {both : ℤ → ℤ} (hf : Storable f)
    (h : ∀ n, least ≤ n ∧ n ≤ most → g (f n) = both n) :
    ∀ node : Node, node.LevelsWithin least most → (node.relevel f).relevel g = node.relevel both
  | ⟨kind, props, children, span⟩, hnode => by
    obtain ⟨hown, hparts⟩ := levelsWithin_iff.1 hnode
    have hprops := relevelledProps_relevel hf fun level hlevel => h level (hown level hlevel)
    have hchildren := relevelAll_relevelAll hf h children hparts
    rw [relevel] at hprops ⊢
    rw [relevel, relevel, hprops, hchildren]

theorem relevelAll_relevelAll {both : ℤ → ℤ} (hf : Storable f)
    (h : ∀ n, least ≤ n ∧ n ≤ most → g (f n) = both n) :
    ∀ nodes : List Node, (∀ node ∈ nodes, node.LevelsWithin least most) →
      relevelAll g (relevelAll f nodes) = relevelAll both nodes
  | [], _ => rfl
  | node :: nodes, hnodes => by
    obtain ⟨hnode, hrest⟩ := List.forall_mem_cons.1 hnodes
    rw [relevelAll, relevelAll, relevelAll, relevel_relevel hf h node hnode,
      relevelAll_relevelAll hf h nodes hrest]

end

end Node

namespace HeadingShift

variable {shift : HeadingShift}

lemma level_bounds (shift : HeadingShift) (n : ℤ) :
    shift.least ≤ shift.level n ∧ shift.level n ≤ shift.most :=
  ⟨shift.least_le_level n, shift.level_le_most n⟩

lemma storable_level (h : shift.IsStorable) : Node.Storable shift.level := fun n =>
  ⟨h.1.trans (shift.least_le_level n), (shift.level_le_most n).trans h.2⟩

lemma monotone_level (shift : HeadingShift) : Monotone shift.level := by
  intro m n hle
  rw [level, level]
  omega

/-- A level that a shift has stopped at a bound would have been stopped by the sum too. -/
lemma level_level {least most a b n : ℤ} (ordered : least ≤ most)
    (hsign : 0 ≤ a ∧ 0 ≤ b ∨ a ≤ 0 ∧ b ≤ 0) (hn : least ≤ n ∧ n ≤ most) :
    level ⟨b, least, most, ordered⟩ (level ⟨a, least, most, ordered⟩ n) =
      level ⟨a + b, least, most, ordered⟩ n := by
  simp only [level]
  omega

end HeadingShift

namespace Transform

/-- What a shift makes of a document: the levels change, in their order and within the bounds, and
nothing else does. -/
structure Shifts (shift : HeadingShift) (doc out : Document) : Prop where
  content : Node.Relevelled shift.level doc.content out.content
  order : Monotone shift.level
  within : out.content.LevelsWithin shift.least shift.most
  others : out = { doc with content := out.content }

lemma shifts_relevel {shift : HeadingShift} (h : shift.IsStorable) (doc : Document) :
    Shifts shift doc { doc with content := doc.content.relevel shift.level } :=
  ⟨Node.relevelled_relevel (HeadingShift.storable_level h) doc.content, shift.monotone_level,
    Node.levelsWithin_relevel (HeadingShift.storable_level h) shift.level_bounds doc.content, rfl⟩

/-- Shifts between the same storable bounds have one result each for every document, and fail for
nothing but want of room. Two of them in one direction come to the shift by their sum on every
document whose levels lie within the bounds, and need no more room than it. -/
theorem shiftHeadings_add {least most : ℤ} (ordered : least ≤ most)
    (hleast : Int64.minValue.toInt ≤ least) (hmost : most ≤ Int64.maxValue.toInt) {a b : ℤ}
    (hsign : 0 ≤ a ∧ 0 ≤ b ∨ a ≤ 0 ∧ b ≤ 0) {doc : Document}
    (hlevels : doc.content.LevelsWithin least most) :
    ∃ first both, Makes (.shiftHeadings ⟨a, least, most, ordered⟩) doc first ∧
      Makes (.shiftHeadings ⟨b, least, most, ordered⟩) first both ∧
      Makes (.shiftHeadings ⟨a + b, least, most, ordered⟩) doc both ∧
      first.content.depth ≤ doc.content.depth ∧
      Shifts ⟨a, least, most, ordered⟩ doc first ∧ Shifts ⟨b, least, most, ordered⟩ first both ∧
      Shifts ⟨a + b, least, most, ordered⟩ doc both := by
  have hstorable (delta : ℤ) : HeadingShift.IsStorable ⟨delta, least, most, ordered⟩ :=
    ⟨hleast, hmost⟩
  let first : Document :=
    { doc with content := doc.content.relevel (HeadingShift.level ⟨a, least, most, ordered⟩) }
  have hsecond := makes_shiftHeadings (hstorable b) first
  have hsecondShifts := shifts_relevel (hstorable b) first
  have hboth := Node.relevel_relevel (HeadingShift.storable_level (hstorable a))
    (fun n => HeadingShift.level_level ordered hsign) doc.content hlevels
  rw [hboth] at hsecond hsecondShifts
  exact ⟨first, _, makes_shiftHeadings (hstorable a) doc, hsecond,
    makes_shiftHeadings (hstorable (a + b)) doc, Node.depth_relevel_le _ doc.content,
    shifts_relevel (hstorable a) doc, hsecondShifts, shifts_relevel (hstorable (a + b)) doc⟩

/-- Levels at either bound and between them, a level that is a switch, and a level of a node that is
no heading. -/
theorem shiftHeadings_add_report :
    let headings := [Node.heading 2 [.text "a"], .heading 5 [], .branch .div [.heading 3 []]]
    let others := [(Node.branch .heading []).withBool Key.level true,
      (Node.paragraph []).withNat Key.level 9]
    let doc := Document.ofContent (.document (headings ++ others))
    ((2 : ℤ) ≤ 5 ∧ Int64.minValue.toInt ≤ 2 ∧ 5 ≤ Int64.maxValue.toInt ∧
      ((0 : ℤ) ≤ 1 ∧ (0 : ℤ) ≤ 2 ∨ (1 : ℤ) ≤ 0 ∧ (2 : ℤ) ≤ 0) ∧ doc.content.LevelsWithin 2 5) ∧
      ∃ first both, Makes (.shiftHeadings ⟨1, 2, 5, by decide⟩) doc first ∧
        Makes (.shiftHeadings ⟨2, 2, 5, by decide⟩) first both ∧
        Makes (.shiftHeadings ⟨1 + 2, 2, 5, by decide⟩) doc both ∧
        first.content.depth ≤ doc.content.depth ∧
        Shifts ⟨1, 2, 5, by decide⟩ doc first ∧ Shifts ⟨2, 2, 5, by decide⟩ first both ∧
        Shifts ⟨1 + 2, 2, 5, by decide⟩ doc both := by
  intro headings others doc
  have hleast : Int64.minValue.toInt ≤ 2 := by decide
  have hmost : 5 ≤ Int64.maxValue.toInt := by decide
  have hsign : (0 : ℤ) ≤ 1 ∧ (0 : ℤ) ≤ 2 ∨ (1 : ℤ) ≤ 0 ∧ (2 : ℤ) ≤ 0 := by decide
  have hlevels : doc.content.LevelsWithin 2 5 := by decide
  exact ⟨⟨by decide, hleast, hmost, hsign, hlevels⟩,
    shiftHeadings_add (by decide) hleast hmost hsign hlevels⟩

/-- There are documents, without any headings, on which a shift fails. -/
theorem apply_shiftHeadings_tower_eq_tooDeep :
    let doc := Document.tower 1000
    doc.content.LevelsWithin 1 6 ∧ (Transform.shiftHeadings .standard).apply 1000 doc =
      .error (.tooDeep "shift-headings") := by
  refine ⟨fun part hpart level hlevel => ?_,
    (makes_shiftHeadings (by decide) _).apply_of_le (Document.le_depth_tower 1000)⟩
  have hheading := (Node.headingLevel?_eq_some_iff.1 hlevel).1
  rcases Document.kind_of_mem_walk_tower hpart with hkind | hkind <;>
    exact absurd (hkind.symm.trans hheading) (by decide)

end Transform

end Interchange
