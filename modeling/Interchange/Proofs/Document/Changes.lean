import Interchange.Proofs.Document.Properties

/-!
# Runs of changes to a bag

A bag is changed by setting and removing names, and a change that fails leaves it as it was. After
any run of changes it holds what can be told from the run alone: under each name the value that was
set last, unless the name was removed after that, and the names in the order in which they came in.
-/
namespace Interchange.Bag

inductive Step where
  | set (name : String) (value : Json)
  | remove (name : String)

namespace Step

def apply (bag : Bag) : Step → Except ValueFault Bag
  | .set name value => Bag.set bag name value
  | .remove name => .ok (bag.erase name)

/-- The bag after a change, which is the same when the change fails. -/
def advance (bag : Bag) (step : Step) : Bag :=
  match step.apply bag with
  | .ok next => next
  | .error _ => bag

/-- A name is set, which succeeds and gives it a value. -/
def Sets (name : String) (value : Value) : Step → Prop
  | .set own json => own = name ∧ Value.ofJson json = .ok value
  | .remove _ => False

def Removes (name : String) : Step → Prop
  | .set .. => False
  | .remove own => own = name

section

variable {name other : String} {value found : Value} {step : Step}

lemma Sets.unique (h : step.Sets name value) (h' : step.Sets other found) :
    name = other ∧ value = found := by
  cases step with
  | set own json => exact ⟨h.1.symm.trans h'.1, Except.ok.inj (h.2.symm.trans h'.2)⟩
  | remove own => exact h.elim

lemma Removes.unique (h : step.Removes name) (h' : step.Removes other) : name = other := by
  cases step with
  | set own json => exact h.elim
  | remove own => exact h.symm.trans h'

lemma Sets.not_removes (h : step.Sets name value) (other : String) : ¬step.Removes other := by
  cases step with
  | set own json => exact id
  | remove own => exact h.elim

end

/-- A change sets a name, removes one or fails. -/
lemma advance_cases (bag : Bag) (step : Step) :
    (∃ name value, step.Sets name value ∧ step.advance bag = bag.insert name value) ∨
    (∃ name, step.Removes name ∧ step.advance bag = bag.erase name) ∨
    ((∀ name value, ¬step.Sets name value) ∧ (∀ name, ¬step.Removes name) ∧
      step.advance bag = bag) := by
  cases step with
  | remove name => exact .inr (.inl ⟨name, rfl, rfl⟩)
  | set name json =>
    cases hvalue : Value.ofJson json with
    | ok value =>
      refine .inl ⟨name, value, ⟨rfl, hvalue⟩, ?_⟩
      rw [advance, apply, Bag.set, hvalue]
      rfl
    | error fault =>
      refine .inr (.inr ⟨fun own value h => ?_, fun _ => id, ?_⟩)
      · rw [Sets, hvalue] at h
        cases h.2
      · rw [advance, apply, Bag.set, hvalue]
        rfl

end Step

def run (bag : Bag) (steps : List Step) : Bag := steps.foldl Step.advance bag

lemma run_concat (bag : Bag) (steps : List Step) (step : Step) :
    run bag (steps ++ [step]) = step.advance (run bag steps) := List.foldl_concat ..

/-- The changes that make a bag, its entries in their order. -/
def written (bag : Bag) : List Step := bag.entries.map fun e => .set e.1 e.2.toJson

/-- Every bag is made by a run. -/
theorem run_written (bag : Bag) : run .empty (written bag) = bag := by
  have hset (m : Bag) (e : String × Value) :
      (Step.set e.1 e.2.toJson).apply m = .ok (m.insert e.1 e.2) := set_toJson m e.1 e.2
  have hall : (written bag).foldlM Step.apply .empty = .ok bag :=
    OrderedMap.foldlM_insert_entries hset bag
  have hadvance (steps : List Step) (before after : Bag)
      (h : steps.foldlM Step.apply before = .ok after) : run before steps = after := by
    induction steps generalizing before with
    | nil => exact Except.ok.inj h
    | cons step steps ih =>
      obtain ⟨next, hnext, hrest⟩ := Except.bind_eq_ok_iff.1 ((List.foldlM_cons ..).symm.trans h)
      rw [run, List.foldl_cons, Step.advance, hnext]
      exact ih next hrest
  exact hadvance (written bag) .empty bag hall

/-- The change at a place of a run is of some sort. -/
def At (sort : Step → Prop) (steps : List Step) (i : ℕ) : Prop := ∃ step ∈ steps[i]?, sort step

/-- The last time that a name was set, it was set to a value and was not removed later. -/
def Holds (steps : List Step) (name : String) (value : Value) : Prop :=
  ∃ i, At (Step.Sets name value) steps i ∧
    ∀ j, i < j → ¬At (Step.Removes name) steps j ∧ ∀ other, ¬At (Step.Sets name other) steps j

/-- The place at which a name came in: it is set there for the first time since it was removed, and
it is not removed later. -/
structure EntersAt (steps : List Step) (name : String) (i : ℕ) : Prop where
  sets : ∃ value, At (Step.Sets name value) steps i
  stays : ∀ j, i < j → ¬At (Step.Removes name) steps j
  first : ∀ j value, j < i → At (Step.Sets name value) steps j →
    ∃ k, j < k ∧ k < i ∧ At (Step.Removes name) steps k

section

variable {sort : Step → Prop} {steps : List Step} {step : Step} {name : String} {i : ℕ}

lemma At.lt (h : At sort steps i) : i < steps.length := by
  obtain ⟨step, hstep, -⟩ := h
  exact (List.getElem?_eq_some_iff.1 hstep).1

lemma at_concat_iff : At sort (steps ++ [step]) i ↔
    At sort steps i ∨ i = steps.length ∧ sort step := by
  rcases Nat.lt_trichotomy i steps.length with hlt | rfl | hgt
  · simp [At, List.getElem?_append_left hlt, hlt.ne]
  · simp [At]
  · have hlength : (steps ++ [step]).length ≤ i := by simpa using hgt
    simp [At, List.getElem?_eq_none hlength, List.getElem?_eq_none hgt.le, hgt.ne']

lemma At.le_length (h : At sort (steps ++ [step]) i) : i ≤ steps.length := by
  have := h.lt
  rw [List.length_append, List.length_singleton] at this
  omega

lemma holds_concat_of_sets {value other : Value} (h : step.Sets name value) :
    Holds (steps ++ [step]) name other ↔ value = other := by
  constructor
  · rintro ⟨i, hset, hlast⟩
    rcases at_concat_iff.1 hset with hset | ⟨-, hset⟩
    · exact absurd (at_concat_iff.2 (.inr ⟨rfl, h⟩)) ((hlast steps.length hset.lt).2 value)
    · exact (h.unique hset).2
  · rintro rfl
    exact ⟨steps.length, at_concat_iff.2 (.inr ⟨rfl, h⟩), fun j hj =>
      ⟨fun hat => Nat.not_lt.2 hat.le_length hj, fun _ hat => Nat.not_lt.2 hat.le_length hj⟩⟩

lemma not_holds_concat_of_removes (h : step.Removes name) (value : Value) :
    ¬Holds (steps ++ [step]) name value := by
  rintro ⟨i, hset, hlast⟩
  rcases at_concat_iff.1 hset with hset | ⟨-, hset⟩
  · exact (hlast steps.length hset.lt).1 (at_concat_iff.2 (.inr ⟨rfl, h⟩))
  · exact hset.not_removes name h

lemma holds_concat_of_other (hset : ∀ value, ¬step.Sets name value)
    (hremove : ¬step.Removes name) (value : Value) :
    Holds (steps ++ [step]) name value ↔ Holds steps name value := by
  simp only [Holds, at_concat_iff, hset, hremove, and_false, or_false]

/-- A name that is set and then not there was removed in between. -/
lemma exists_removed (h : ∀ value, ¬Holds steps name value) {value : Value}
    (hset : At (Step.Sets name value) steps i) :
    ∃ j, i < j ∧ At (Step.Removes name) steps j := by
  induction steps using List.reverseRecOn with
  | nil => exact absurd hset.lt (Nat.not_lt_zero i)
  | append_singleton steps step ih =>
    have hnone (other : Value) : ¬step.Sets name other := fun hother =>
      h other ((holds_concat_of_sets hother).2 rfl)
    have hbefore : At (Step.Sets name value) steps i :=
      (at_concat_iff.1 hset).resolve_right fun hlast => hnone value hlast.2
    by_cases hremove : step.Removes name
    · exact ⟨steps.length, hbefore.lt, at_concat_iff.2 (.inr ⟨rfl, hremove⟩)⟩
    · have hlater := ih (fun other hother =>
        h other ((holds_concat_of_other hnone hremove other).2 hother)) hbefore
      exact hlater.imp fun j hj => hj.imp_right fun hat => at_concat_iff.2 (.inl hat)

lemma EntersAt.lt (h : EntersAt steps name i) : i < steps.length := by
  obtain ⟨value, hset⟩ := h.sets
  exact hset.lt

/-- A name stays where it came in until it is removed. -/
lemma EntersAt.concat (h : EntersAt steps name i) (hremove : ¬step.Removes name) :
    EntersAt (steps ++ [step]) name i := by
  obtain ⟨value, hset⟩ := h.sets
  refine ⟨⟨value, at_concat_iff.2 (.inl hset)⟩, fun j hj hat => ?_, fun j other hj hat => ?_⟩
  · rcases at_concat_iff.1 hat with hat | ⟨-, hat⟩
    · exact h.stays j hj hat
    · exact hremove hat
  · rcases at_concat_iff.1 hat with hat | ⟨rfl, -⟩
    · obtain ⟨k, hjk, hki, hat⟩ := h.first j other hj hat
      exact ⟨k, hjk, hki, at_concat_iff.2 (.inl hat)⟩
    · exact absurd hset.lt (Nat.lt_asymm hj)

/-- A name that is not there comes in when it is set. -/
lemma entersAt_length (hnone : ∀ value, ¬Holds steps name value) {value : Value}
    (h : step.Sets name value) : EntersAt (steps ++ [step]) name steps.length := by
  refine ⟨⟨value, at_concat_iff.2 (.inr ⟨rfl, h⟩)⟩, fun j hj hat => ?_, fun j other hj hat => ?_⟩
  · exact Nat.not_lt.2 hat.le_length hj
  · rcases at_concat_iff.1 hat with hat | ⟨rfl, -⟩
    · obtain ⟨k, hjk, hremove⟩ := exists_removed hnone hat
      exact ⟨k, hjk, hremove.lt, at_concat_iff.2 (.inl hremove)⟩
    · exact absurd hj (Nat.lt_irrefl _)

end

lemma get?_run (steps : List Step) (name : String) (value : Value) :
    (run .empty steps).get? name = some value ↔ Holds steps name value := by
  induction steps using List.reverseRecOn with
  | nil => exact iff_of_false nofun fun ⟨i, hset, _⟩ => absurd hset.lt (Nat.not_lt_zero i)
  | append_singleton steps step ih =>
    rw [run_concat]
    rcases step.advance_cases (run .empty steps) with ⟨own, found, hset, hnext⟩ |
      ⟨own, hremove, hnext⟩ | ⟨hset, hremove, hnext⟩
    · rw [hnext, OrderedMap.get?_insert]
      split_ifs with hown
      · rw [holds_concat_of_sets (hown ▸ hset), Option.some_inj]
      · rw [ih, holds_concat_of_other (fun _ h => hown (hset.unique h).1) (hset.not_removes name)]
    · rw [hnext, OrderedMap.get?_erase]
      split_ifs with hown
      · exact iff_of_false nofun (not_holds_concat_of_removes (hown ▸ hremove) value)
      · rw [ih, holds_concat_of_other (fun _ h => h.not_removes own hremove)
          fun h => hown (hremove.unique h)]
    · rw [hnext, ih, holds_concat_of_other (hset name) (hremove name)]

lemma mem_keys_run_iff (steps : List Step) (name : String) :
    name ∈ (run .empty steps).keys ↔ ∃ value, Holds steps name value := by
  rw [← not_iff_not, ← OrderedMap.get?_eq_none_iff, Option.eq_none_iff_forall_ne_some, not_exists]
  exact forall_congr' fun value => not_congr (get?_run steps name value)

/-- The items of a list that is filtered, each with what it is related to. -/
lemma exists_forall₂_filter {α β : Type} {R S : α → β → Prop} {p : α → Bool} {xs : List α}
    {ys : List β} (h : List.Forall₂ R xs ys) (hS : ∀ x y, p x = true → R x y → S x y) :
    ∃ kept, kept.Sublist ys ∧ List.Forall₂ S (xs.filter p) kept := by
  induction h with
  | nil => exact ⟨[], .slnil, .nil⟩
  | @cons x y xs ys hxy _ ih =>
    obtain ⟨kept, hsublist, hkept⟩ := ih
    by_cases hx : p x = true
    · rw [List.filter_cons_of_pos hx]
      exact ⟨y :: kept, hsublist.cons_cons y, .cons (hS x y hx hxy) hkept⟩
    · rw [List.filter_cons_of_neg hx]
      exact ⟨kept, hsublist.cons y, hkept⟩

/-- The names stand in the order of the places at which they came in. -/
lemma exists_places (steps : List Step) : ∃ places : List ℕ, places.Pairwise (· < ·) ∧
    List.Forall₂ (EntersAt steps) (run .empty steps).keys places := by
  induction steps using List.reverseRecOn with
  | nil => exact ⟨[], .nil, .nil⟩
  | append_singleton steps step ih =>
    obtain ⟨places, hincreasing, hplaces⟩ := ih
    rw [run_concat]
    rcases step.advance_cases (run .empty steps) with ⟨own, found, hset, hnext⟩ |
      ⟨own, hremove, hnext⟩ | ⟨-, hremove, hnext⟩
    · have hkept : List.Forall₂ (EntersAt (steps ++ [step])) (run .empty steps).keys places :=
        hplaces.imp fun name _ h => h.concat (hset.not_removes name)
      rw [hnext]
      by_cases hold : own ∈ (run .empty steps).keys
      · exact ⟨places, hincreasing, by rwa [OrderedMap.keys_insert_of_mem hold]⟩
      · -- A new name goes to the end, and it is set after all that came in before.
        have hnone : ∀ value, ¬Holds steps own value :=
          not_exists.1 (mt (mem_keys_run_iff steps own).2 hold)
        have hkeys : ((run .empty steps).insert own found).keys =
            (run .empty steps).keys ++ [own] := by
          rw [OrderedMap.keys, OrderedMap.entries_insert_of_notMem hold, List.map_append]
          rfl
        have hbefore : ∀ place ∈ places, place < steps.length :=
          ((List.forall₂_and_left _ _).1 (hplaces.flip.imp fun _ _ h => ⟨h.lt, h⟩)).1
        refine ⟨places ++ [steps.length], ?_, ?_⟩
        · exact List.pairwise_append.2 ⟨hincreasing, List.pairwise_singleton _ _,
            fun place hplace last hlast => List.mem_singleton.1 hlast ▸ hbefore place hplace⟩
        · rw [hkeys]
          exact List.rel_append hkept (.cons (entersAt_length hnone hset) .nil)
    · have hkeys : ((run .empty steps).erase own).keys =
          (run .empty steps).keys.filter (· ≠ own) := by
        rw [OrderedMap.keys, OrderedMap.keys, List.filter_map]
        rfl
      obtain ⟨kept, hsublist, hkept⟩ := exists_forall₂_filter hplaces
        (S := EntersAt (steps ++ [step])) (p := (· ≠ own)) fun name _ hname h =>
          h.concat fun hat => of_decide_eq_true hname (hat.unique hremove)
      exact ⟨kept, hincreasing.sublist hsublist, by rwa [hnext, hkeys]⟩
    · rw [hnext]
      exact ⟨places, hincreasing, hplaces.imp fun name _ h => h.concat (hremove name)⟩

/-- What each of the typed look-ups finds under a name. -/
def readings (bag : Bag) (name : String) : List (Option Value) := [
  (text? bag name).map .text, (int? bag name).bind Value.ofInt?, (float? bag name).map .float,
  (bool? bag name).map .bool, (list? bag name).map .list, (map? bag name).map .map]

/-- Under a name that is there exactly one typed look-up finds something, and that is its value. -/
lemma reduceOption_readings (bag : Bag) (name : String) :
    (readings bag name).reduceOption = (bag.get? name).toList := by
  unfold readings text? int? float? bool? list? map?
  cases bag.get? name with
  | none => rfl
  | some value =>
    cases value with
    | int n =>
      change [none, (some n.toInt).bind Value.ofInt?, none, none, none, none].reduceOption =
        [.int n]
      rw [Option.bind_some, Value.ofInt?_toInt]
      rfl
    | _ => rfl

/-- A bag holds what a run of changes says, and all ways of looking into it agree. -/
structure Records (steps : List Step) (bag : Bag) : Prop where
  value : ∀ name value, bag.get? name = some value ↔ Holds steps name value
  order : ∃ places : List ℕ, places.Pairwise (· < ·) ∧
    List.Forall₂ (EntersAt steps) bag.keys places
  nodup : bag.keys.Nodup
  size : bag.size = bag.keys.length
  contains : ∀ name, bag.contains name = true ↔ name ∈ bag.keys
  present : ∀ name, name ∈ bag.keys ↔ ∃ value, bag.get? name = some value
  reading : ∀ name, (readings bag name).reduceOption = (bag.get? name).toList

/-- After any run of changes to any bag, failing ones among them, the bag holds what the changes say
that made it, and a change that fails makes no difference. -/
theorem records_run (bag : Bag) (steps : List Step) :
    Records (written bag ++ steps) (run bag steps) ∧
      ∀ name json fault, Value.ofJson json = .error fault →
        run bag (steps ++ [.set name json]) = run bag steps := by
  have hrun : run .empty (written bag ++ steps) = run bag steps := by
    have hsplit : run .empty (written bag ++ steps) = run (run .empty (written bag)) steps :=
      List.foldl_append
    rw [hsplit, run_written]
  have hpresent (name : String) :
      name ∈ (run bag steps).keys ↔ ∃ value, (run bag steps).get? name = some value := by
    rw [← Option.isSome_iff_exists, ← Option.ne_none_iff_isSome, Ne, OrderedMap.get?_eq_none_iff,
      not_not]
  refine ⟨⟨?_, ?_, (run bag steps).nodup, (List.length_map _).symm, fun name => ?_, hpresent,
    reduceOption_readings _⟩, fun name json fault hfault => ?_⟩
  · rw [← hrun]
    exact get?_run _
  · rw [← hrun]
    exact exists_places _
  · rw [hpresent, OrderedMap.contains, Option.isSome_iff_exists]
  · rw [run_concat, Step.advance, Step.apply, Bag.set, hfault]
    rfl

/-- A name that is set again keeps its place, one that was removed comes in last, and a null changes
nothing. -/
example : (run .empty [.set "a" (.int 1), .set "b" (.bool true), .set "a" (.text "x"),
    .set "b" .null, .remove "a", .set "a" (.int 2)]).keys = ["b", "a"] := by
  decide

end Interchange.Bag
