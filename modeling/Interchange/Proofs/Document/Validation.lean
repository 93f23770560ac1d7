import Interchange.Proofs.Document.Properties

/-!
# Which part of a value is at fault

A JSON value that is no property value is refused for the first part of it, from left to right and
at any depth, that is null or too large a number. A value that is accepted is kept as it is.
-/
namespace Interchange

variable {τ : Type}

namespace Json

/-- What is wrong with a value by itself, whatever its parts are. -/
def fault? : Json τ → Option ValueFault
  | .null => some .absent
  | .int n => if -2 ^ 63 ≤ n ∧ n < 2 ^ 63 then none else some (.outOfRange n)
  | _ => none

lemma fault?_eq_none_iff (value : Json τ) : value.fault? = none ↔ value.IsStorable := by
  cases value with
  | int n =>
    rw [fault?, IsStorable]
    split_ifs with h
    · exact iff_of_true rfl h
    · exact iff_of_false not_false h
  | _ => simp [fault?, IsStorable]

/-- A null is at fault for its kind and an integer for its size. -/
inductive IsFault : Json τ → ValueFault → Prop
  | absent : IsFault .null .absent
  | outOfRange {n : ℤ} (h : n < -2 ^ 63 ∨ 2 ^ 63 ≤ n) : IsFault (.int n) (.outOfRange n)

lemma fault?_eq_some_iff {value : Json τ} {fault : ValueFault} :
    value.fault? = some fault ↔ IsFault value fault := by
  constructor
  · intro h
    cases value with
    | null =>
      cases h
      exact .absent
    | int n =>
      rw [fault?] at h
      split_ifs at h with hrange
      cases h
      exact .outOfRange (by omega)
    | _ => cases h
  · rintro (_ | hrange)
    · rfl
    · exact if_neg (by omega)

end Json

namespace Value

lemma ofInt_eq_error_iff {n : ℤ} {fault : ValueFault} :
    (ofInt n : Except ValueFault (Value τ)) = .error fault ↔
      (Json.int n : Json τ).fault? = some fault := by
  have hmin : Int64.minValue.toInt = -2 ^ 63 := rfl
  have hmax : Int64.maxValue.toInt = 2 ^ 63 - 1 := rfl
  have hrange : (-2 ^ 63 ≤ n ∧ n ≤ 2 ^ 63 - 1) ↔ (-2 ^ 63 ≤ n ∧ n < 2 ^ 63) := by omega
  rw [ofInt, ofInt?, hmin, hmax, Json.fault?]
  by_cases h : -2 ^ 63 ≤ n ∧ n < 2 ^ 63
  · rw [if_pos h, if_pos (hrange.2 h)]
    exact iff_of_false (by simp) (by simp)
  · rw [if_neg h, if_neg (mt hrange.1 h)]
    exact (Except.error.injEq ..).to_iff.trans (Option.some.injEq ..).to_iff.symm

/-- The fault of a value and, after it, of others is the first fault of them all. -/
lemma pair_eq_error_iff {α β γ : Type} {x : Except ValueFault α} {y : Except ValueFault β}
    {pair : α → β → γ} {before after : List (Json τ)}
    (hx : ∀ fault, x = .error fault ↔ before.findSome? Json.fault? = some fault)
    (hy : ∀ fault, y = .error fault ↔ after.findSome? Json.fault? = some fault)
    (fault : ValueFault) : (x >>= fun a => y >>= fun b => .ok (pair a b)) = .error fault ↔
      (before ++ after).findSome? Json.fault? = some fault := by
  rw [List.findSome?_append]
  cases x with
  | error first =>
    have hfirst := (hx first).1 rfl
    simp [Except.bind_error, hfirst]
  | ok a =>
    have hnone : before.findSome? Json.fault? = none :=
      Option.eq_none_iff_forall_ne_some.2 fun first hfirst => nomatch (hx first).2 hfirst
    rw [hnone, Option.none_or, ← hy, Except.bind_ok]
    cases y <;> simp [Except.bind_ok, Except.bind_error]

mutual

theorem ofJson_eq_error_iff : ∀ (value : Json τ) (fault : ValueFault),
    ofJson value = .error fault ↔ value.parts.findSome? Json.fault? = some fault
  | .null, fault => by simp [ofJson, Json.parts, Json.fault?]
  | .bool b, fault => by simp [ofJson, Json.parts, Json.fault?]
  | .int n, fault => by
    rw [ofJson, ofInt_eq_error_iff, Json.parts, List.findSome?_singleton]
    all_goals simp
  | .float x, fault => by simp [ofJson, Json.parts, Json.fault?]
  | .text s, fault => by simp [ofJson, Json.parts, Json.fault?]
  | .list items, fault => by
    rw [ofJson, Except.map_eq_error_iff, ofJsonItems_eq_error_iff items fault, Json.parts,
      List.findSome?_cons, Json.fault?]
    all_goals simp
  | .object members, fault => by
    rw [ofJson, Except.map_eq_error_iff, ofJsonMembers_eq_error_iff members fault, Json.parts,
      List.findSome?_cons, Json.fault?]
    all_goals simp

theorem ofJsonItems_eq_error_iff : ∀ (items : List (Json τ)) (fault : ValueFault),
    ofJsonItems items = .error fault ↔
      (Json.partsOfItems items).findSome? Json.fault? = some fault
  | [], _ => iff_of_false nofun nofun
  | item :: items, fault =>
    pair_eq_error_iff (ofJson_eq_error_iff item) (ofJsonItems_eq_error_iff items) fault

theorem ofJsonMembers_eq_error_iff : ∀ (members : List (τ × Json τ)) (fault : ValueFault),
    ofJsonMembers members = .error fault ↔
      (Json.partsOfMembers members).findSome? Json.fault? = some fault
  | [], _ => iff_of_false nofun nofun
  | (_, value) :: members, fault =>
    pair_eq_error_iff (ofJson_eq_error_iff value) (ofJsonMembers_eq_error_iff members) fault

end

mutual

/-- A value that is accepted is written as it was. -/
theorem toJson_of_ofJson : ∀ (value : Json τ) (v : Value τ), ofJson value = .ok v → v.toJson = value
  | .null, _, h => nomatch h
  | .bool b, _, h => by
    cases h
    rfl
  | .int n, v, h => by
    rw [ofJson, ofInt, ofInt?] at h
    split_ifs at h with hrange
    cases h
    rw [toJson, Int64.toInt_ofInt_of_le hrange.1 (Int.lt_of_le_sub_one hrange.2)]
  | .float x, _, h => by
    cases h
    rfl
  | .text s, _, h => by
    cases h
    rfl
  | .list items, v, h => by
    cases hitems : ofJsonItems items with
    | error fault =>
      rw [ofJson, hitems] at h
      cases h
    | ok vs =>
      rw [ofJson, hitems] at h
      cases h
      rw [toJson, toJsonItems_of_ofJsonItems items vs hitems]
  | .object members, v, h => by
    cases hmembers : ofJsonMembers members with
    | error fault =>
      rw [ofJson, hmembers] at h
      cases h
    | ok fields =>
      rw [ofJson, hmembers] at h
      cases h
      rw [toJson, toJsonFields_of_ofJsonMembers members fields hmembers]

theorem toJsonItems_of_ofJsonItems : ∀ (items : List (Json τ)) (vs : List (Value τ)),
    ofJsonItems items = .ok vs → toJsonItems vs = items
  | [], _, h => by
    cases h
    rfl
  | item :: items, vs, h => by
    obtain ⟨v, hv, h⟩ := Except.bind_eq_ok_iff.1 h
    obtain ⟨rest, hrest, h⟩ := Except.bind_eq_ok_iff.1 h
    cases h
    rw [toJsonItems, toJson_of_ofJson item v hv, toJsonItems_of_ofJsonItems items rest hrest]

theorem toJsonFields_of_ofJsonMembers :
    ∀ (members : List (τ × Json τ)) (fields : List (τ × Value τ)),
      ofJsonMembers members = .ok fields → toJsonFields fields = members
  | [], _, h => by
    cases h
    rfl
  | (_, value) :: members, fields, h => by
    obtain ⟨v, hv, h⟩ := Except.bind_eq_ok_iff.1 h
    obtain ⟨rest, hrest, h⟩ := Except.bind_eq_ok_iff.1 h
    cases h
    rw [toJsonFields, toJson_of_ofJson value v hv,
      toJsonFields_of_ofJsonMembers members rest hrest]

end

/-- Of all JSON values exactly those are accepted in which no part is null or too large a number.
The first such part, from left to right and at any depth, is the fault of the others; what is
accepted is kept as it was, and accepted again with the same result. -/
theorem ofJson_exact (value : Json τ) :
    ((∃ v, ofJson value = .ok v) ↔ ∀ part ∈ value.parts, part.IsStorable) ∧
    (∀ fault, ofJson value = .error fault ↔ ∃ before part after,
      value.parts = before ++ part :: after ∧ (∀ earlier ∈ before, earlier.IsStorable) ∧
        part.IsFault fault) ∧
    (∀ v, ofJson value = .ok v → v.toJson = value ∧ ofJson v.toJson = .ok v) := by
  refine ⟨exists_ofJson_iff value, fun fault => ?_, fun v hv => ?_⟩
  · rw [ofJson_eq_error_iff, List.findSome?_eq_some_iff]
    refine exists₃_congr fun before part after => and_congr_right fun _ => ?_
    rw [Json.fault?_eq_some_iff, and_comm]
    simp only [Json.fault?_eq_none_iff]
  · exact ⟨toJson_of_ofJson value v hv, ofJson_toJson v⟩

end Value

end Interchange
