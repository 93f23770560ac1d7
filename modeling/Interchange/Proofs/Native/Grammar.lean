import Interchange.Proofs.Document.Properties
import Interchange.Proofs.Native.Discipline

/-!
# The JSON values that are nodes

A grammar for the native form of a node, stated without the decoder: what each member of an object
may be, at any depth, and how deep the tree may go. The decoder accepts what is in the grammar and
nothing else.
-/
namespace Interchange.Native

def IsSpan (value : Json Wide) : Prop :=
  value = .null ∨ ∃ start stop, value = .list [.int start, .int stop] ∧ 0 ≤ start ∧ start ≤ stop

def IsBag (value : Json Wide) : Prop :=
  value = .null ∨ ∃ members, value = .object members ∧
    ∀ member ∈ members, ∀ part ∈ member.2.parts, part.IsStorable

/-- A list, or a value that does not count as set. -/
def IsSequence (value : Json Wide) : Prop :=
  value.isTruthy = false ∨ ∃ items, value = .list items

/-- The items of a list; no other value has any. -/
def itemsOf : Json Wide → List (Json Wide)
  | .list items => items
  | _ => []

def childrenOf (members : List (Wide × Json Wide)) : List (Json Wide) :=
  itemsOf (Json.member members "children")

/-- The native form of a node, without regard to its depth. -/
inductive IsNode : Json Wide → Prop
  | object {members : List (Wide × Json Wide)}
      (kind : ∃ name, Json.member members "kind" = .text name ∧ name ≠ Textual.empty)
      (span : IsSpan (Json.member members "span"))
      (props : IsBag (Json.member members "props"))
      (children : IsSequence (Json.member members "children"))
      (each : ∀ child ∈ childrenOf members, IsNode child) : IsNode (.object members)

/-- What lies a number of levels below a value, which is on level zero. -/
inductive LiesBelow : Json Wide → ℕ → Json Wide → Prop
  | root (value : Json Wide) : LiesBelow value 0 value
  | child {members : List (Wide × Json Wide)} {child part : Json Wide} {depth : ℕ}
      (mem : child ∈ childrenOf members) (below : LiesBelow child depth part) :
      LiesBelow (.object members) (depth + 1) part

lemma liesBelow_object_lt_iff {members : List (Wide × Json Wide)} {levels : ℕ} :
    (∀ depth part, LiesBelow (.object members) depth part → depth < levels + 1) ↔
      ∀ child ∈ childrenOf members, ∀ depth part, LiesBelow child depth part → depth < levels := by
  constructor
  · intro h child hchild depth part hpart
    exact Nat.lt_of_succ_lt_succ (h (depth + 1) part (.child hchild hpart))
  · intro h depth part hpart
    cases hpart with
    | root => exact Nat.zero_lt_succ levels
    | child hchild hbelow => exact Nat.succ_lt_succ (h _ hchild _ _ hbelow)

lemma exists_decodeBag_iff {value : Json Wide} : (∃ bag, decodeBag value = .ok bag) ↔ IsBag value := by
  cases value with
  | object members =>
    rw [decodeBag, Except.exists_mapError_eq_ok_iff, Bag.exists_ofMembers_iff]
    simp [IsBag]
  | _ => simp [decodeBag, IsBag]

lemma exists_decodeSpan_iff {value : Json Wide} :
    (∃ span, decodeSpan value = .ok span) ↔ IsSpan value := by
  unfold decodeSpan
  split
  · simp [IsSpan]
  · next start stop =>
    by_cases hordered : 0 ≤ start ∧ start ≤ stop
    · simp [IsSpan, Span.ofInts?, hordered]
    · simp [IsSpan, Span.ofInts?, hordered]
  · next value hnull hints =>
    refine iff_of_false (by simp) ?_
    rintro (rfl | ⟨start, stop, rfl, -⟩)
    · exact hnull rfl
    · exact hints start stop rfl

/-- The decoder goes on with the items that there are. -/
lemma exists_decodeItems_iff {value : Json Wide} {p : List (Json Wide) → Prop} :
    (∃ items, decodeItems value = .ok items ∧ p items) ↔ IsSequence value ∧ p (itemsOf value) := by
  unfold decodeItems
  split
  · next items => simp [IsSequence, itemsOf]
  · next _ hlist =>
    have hnone : itemsOf value = [] := by
      unfold itemsOf
      split
      · next items => exact (hlist items rfl).elim
      · rfl
    rw [hnone]
    by_cases hset : value.isTruthy = true
    · refine iff_of_false (by simp [hset]) ?_
      rintro ⟨hunset | ⟨items, hitems⟩, -⟩
      · rw [hset] at hunset
        cases hunset
      · exact hlist items hitems
    · simp [hset, IsSequence]

/-- One level of the decoder. -/
lemma exists_decodeLevels_object_iff {levels : ℕ} {members : List (Wide × Json Wide)} :
    (∃ node, decodeLevels (levels + 1) (.object members) = .ok node) ↔
      (∃ name, Json.member members "kind" = .text name ∧ name ≠ Textual.empty) ∧
        IsSpan (Json.member members "span") ∧ IsBag (Json.member members "props") ∧
        IsSequence (Json.member members "children") ∧
        ∀ child ∈ childrenOf members, ∃ node, decodeLevels levels child = .ok node := by
  rw [decodeLevels]
  cases hkind : Json.member members "kind" with
  | text name =>
    rw [requireText, hkind, Except.bind_ok]
    by_cases hname : name = Textual.empty
    · simp [Kind.ofName?, hname]
    · rw [Kind.ofName?, dif_pos hname]
      simp only [Except.exists_bind_eq_ok_iff, exists_decodeItems_iff]
      rw [← exists_decodeSpan_iff, ← exists_decodeBag_iff, childrenOf,
        ← Except.exists_mapM_eq_ok_iff]
      constructor
      · rintro ⟨span, hspan, hchildren, props, hprops, nodes, hnodes, -⟩
        exact ⟨⟨name, rfl, hname⟩, ⟨span, hspan⟩, ⟨props, hprops⟩, hchildren, nodes, hnodes⟩
      · rintro ⟨-, ⟨span, hspan⟩, ⟨props, hprops⟩, hchildren, nodes, hnodes⟩
        exact ⟨span, hspan, hchildren, props, hprops, nodes, hnodes, _, rfl⟩
  | _ => simp [requireText, hkind, Except.bind_error]

/-- The induction is on the levels that are left. -/
theorem exists_decodeLevels_iff (levels : ℕ) (value : Json Wide) :
    (∃ node, decodeLevels levels value = .ok node) ↔
      IsNode value ∧ ∀ depth part, LiesBelow value depth part → depth < levels := by
  induction levels generalizing value with
  | zero =>
    refine iff_of_false (by simp [decodeLevels]) fun h => ?_
    exact Nat.not_lt_zero 0 (h.2 0 value (.root value))
  | succ levels ih =>
    cases value with
    | object members =>
      rw [exists_decodeLevels_object_iff, liesBelow_object_lt_iff]
      simp only [ih]
      constructor
      · rintro ⟨hkind, hspan, hprops, hchildren, heach⟩
        exact ⟨.object hkind hspan hprops hchildren fun child hchild => (heach child hchild).1,
          fun child hchild => (heach child hchild).2⟩
      · rintro ⟨⟨hkind, hspan, hprops, hchildren, heach⟩, hdepth⟩
        exact ⟨hkind, hspan, hprops, hchildren,
          fun child hchild => ⟨heach child hchild, hdepth child hchild⟩⟩
    | _ => exact iff_of_false (by simp [decodeLevels]) fun h => by cases h.1

/-- A value is decoded just if it is a node all parts of which lie within 256 levels, and of every
other one the decoder says what is wrong with its form; the one fault that is not of the form is
never met. -/
theorem decodeNode_accepts_iff (value : Json Wide) :
    ((∃ node, decodeNode value = .ok node) ↔
      IsNode value ∧ ∀ depth part, LiesBelow value depth part → depth ≤ 256) ∧
    ((∃ fault, decodeNode value = .error fault ∧ fault ≠ .foreignData) ↔
      ¬(IsNode value ∧ ∀ depth part, LiesBelow value depth part → depth ≤ 256)) := by
  have haccepts : (∃ node, decodeNode value = .ok node) ↔
      IsNode value ∧ ∀ depth part, LiesBelow value depth part → depth ≤ 256 := by
    simp only [decodeNode, exists_decodeLevels_iff, depthLimit, Nat.lt_succ_iff]
  refine ⟨haccepts, ?_⟩
  rw [← haccepts]
  cases hdecode : decodeNode value with
  | ok node => simp
  | error fault =>
    refine iff_of_true ⟨fault, rfl, ?_⟩ (by simp)
    rintro rfl
    exact decodeLevels_ne_foreignData _ _ hdecode

end Interchange.Native
