import Interchange.Document.Bag
import Interchange.Proofs.Failure
import Interchange.Proofs.OrderedMap

/-!
# Properties as JSON values

Every property value is read back from the JSON value that it is written as, at any depth of
lists and maps, and so is a bag, with its names in their order. The other way round, a JSON value is
a property value unless there is a null or a larger integer in it.
-/
namespace Interchange

variable {τ : Type}

namespace Value

lemma ofInt?_toInt (n : Int64) : ofInt? n.toInt = some (.int n : Value τ) := by
  have bounds : Int64.minValue.toInt ≤ n.toInt ∧ n.toInt ≤ Int64.maxValue.toInt :=
    ⟨n.minValue_le_toInt, n.toInt_le⟩
  rw [ofInt?, if_pos bounds, Int64.ofInt_toInt]

lemma ofInt_toInt (n : Int64) : ofInt n.toInt = .ok (.int n : Value τ) := by
  rw [ofInt, ofInt?_toInt]

mutual

@[simp] theorem ofJson_toJson : ∀ v : Value τ, ofJson v.toJson = .ok v
  | .text _ => rfl
  | .int n => ofInt_toInt n
  | .float _ => rfl
  | .bool _ => rfl
  | .list items => by
    rw [toJson, ofJson, ofJsonItems_toJsonItems items]
    rfl
  | .map fields => by
    rw [toJson, ofJson, ofJsonMembers_toJsonFields fields]
    rfl

theorem ofJsonItems_toJsonItems : ∀ vs : List (Value τ), ofJsonItems (toJsonItems vs) = .ok vs
  | [] => rfl
  | v :: vs => by
    rw [toJsonItems, ofJsonItems, ofJson_toJson v, ofJsonItems_toJsonItems vs]
    rfl

theorem ofJsonMembers_toJsonFields :
    ∀ fields : List (τ × Value τ), ofJsonMembers (toJsonFields fields) = .ok fields
  | [] => rfl
  | (name, v) :: fields => by
    rw [toJsonFields, ofJsonMembers, ofJson_toJson v, ofJsonMembers_toJsonFields fields]
    rfl

end

lemma toJsonFields_eq_map (fields : List (τ × Value τ)) :
    toJsonFields fields = fields.map fun e => (e.1, e.2.toJson) := by
  induction fields with
  | nil => rfl
  | cons e fields ih => rw [toJsonFields, ih, List.map_cons]

end Value

namespace Bag

variable [DecidableEq τ]

lemma set_toJson (bag : Bag τ) (name : τ) (value : Value τ) :
    Bag.set bag name value.toJson = .ok (bag.insert name value) := by
  rw [Bag.set, Value.ofJson_toJson]
  rfl

theorem ofMembers_toJsonFields (bag : Bag τ) :
    ofMembers (Value.toJsonFields bag.entries) = .ok bag := by
  rw [Value.toJsonFields_eq_map]
  exact OrderedMap.foldlM_insert_entries (fun m e => set_toJson m e.1 e.2) bag

end Bag

namespace Json

mutual

/-- A value and all values in it, at any depth. -/
def parts : Json τ → List (Json τ)
  | .list items => .list items :: partsOfItems items
  | .object members => .object members :: partsOfMembers members
  | value => [value]

def partsOfItems : List (Json τ) → List (Json τ)
  | [] => []
  | item :: items => parts item ++ partsOfItems items

def partsOfMembers : List (τ × Json τ) → List (Json τ)
  | [] => []
  | (_, value) :: members => parts value ++ partsOfMembers members

end

/-- Not null, and no integer of more than sixty-four bits. -/
def IsStorable : Json τ → Prop
  | .null => False
  | .int n => -2 ^ 63 ≤ n ∧ n < 2 ^ 63
  | _ => True

end Json

namespace Value

lemma exists_ofInt_iff (n : ℤ) : (∃ v : Value τ, ofInt n = .ok v) ↔ -2 ^ 63 ≤ n ∧ n < 2 ^ 63 := by
  have hmin : Int64.minValue.toInt = -2 ^ 63 := rfl
  have hmax : Int64.maxValue.toInt = 2 ^ 63 - 1 := rfl
  rw [ofInt, ofInt?, hmin, hmax]
  split_ifs with h
  · exact iff_of_true ⟨_, rfl⟩ ⟨h.1, Int.lt_of_le_sub_one h.2⟩
  · refine iff_of_false (by simp) fun hrange => h ⟨hrange.1, Int.le_sub_one_of_lt hrange.2⟩

mutual

theorem exists_ofJson_iff : ∀ value : Json τ,
    (∃ v, ofJson value = .ok v) ↔ ∀ part ∈ value.parts, part.IsStorable
  | .null => by simp [ofJson, Json.parts, Json.IsStorable]
  | .bool b => by simp [ofJson, Json.parts, Json.IsStorable]
  | .int n => by
    rw [ofJson, exists_ofInt_iff, Json.parts, List.forall_mem_singleton, Json.IsStorable]
    all_goals simp
  | .float x => by simp [ofJson, Json.parts, Json.IsStorable]
  | .text s => by simp [ofJson, Json.parts, Json.IsStorable]
  | .list items => by
    rw [ofJson, Except.exists_map_eq_ok_iff, exists_ofJsonItems_iff items, Json.parts,
      List.forall_mem_cons, Json.IsStorable, true_and]
    all_goals simp
  | .object members => by
    rw [ofJson, Except.exists_map_eq_ok_iff, exists_ofJsonMembers_iff members, Json.parts,
      List.forall_mem_cons, Json.IsStorable, true_and]
    all_goals simp

theorem exists_ofJsonItems_iff : ∀ items : List (Json τ),
    (∃ vs, ofJsonItems items = .ok vs) ↔ ∀ part ∈ Json.partsOfItems items, part.IsStorable
  | [] => iff_of_true ⟨[], rfl⟩ (List.forall_mem_nil _)
  | item :: items => by
    rw [ofJsonItems, Json.partsOfItems, List.forall_mem_append, ← exists_ofJson_iff item,
      ← exists_ofJsonItems_iff items]
    exact Except.exists_pair_eq_ok_iff

theorem exists_ofJsonMembers_iff : ∀ members : List (τ × Json τ),
    (∃ fields, ofJsonMembers members = .ok fields) ↔
      ∀ part ∈ Json.partsOfMembers members, part.IsStorable
  | [] => iff_of_true ⟨[], rfl⟩ (List.forall_mem_nil _)
  | (name, value) :: members => by
    rw [ofJsonMembers, Json.partsOfMembers, List.forall_mem_append, ← exists_ofJson_iff value,
      ← exists_ofJsonMembers_iff members]
    exact Except.exists_pair_eq_ok_iff

end

end Value

namespace Bag

variable [DecidableEq τ]

/-- Members make a bag when the value of each is one that a property can have. -/
theorem exists_ofMembers_iff (members : List (τ × Json τ)) :
    (∃ bag, ofMembers members = .ok bag) ↔
      ∀ member ∈ members, ∀ part ∈ member.2.parts, part.IsStorable := by
  have hmembers : (∃ bag, ofMembers members = .ok bag) ↔
      ∀ member ∈ members, ∃ v, Value.ofJson member.2 = .ok v :=
    Except.exists_foldlM_map_eq_ok_iff
  simpa only [Value.exists_ofJson_iff] using hmembers

end Bag

end Interchange
