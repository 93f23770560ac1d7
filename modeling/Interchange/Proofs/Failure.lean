import Mathlib.Tactic

/-!
# Computations that may fail

A computation in steps succeeds when every step does, and it fails with the fault of the first
step that does not. Over a list this singles out one item, before which all went well.
-/
namespace Except

variable {ε α β σ : Type}

lemma bind_ok (a : α) (f : α → Except ε β) : (Except.ok a >>= f) = f a := rfl

lemma bind_error (e : ε) (f : α → Except ε β) : (Except.error e >>= f) = .error e := rfl

theorem bind_eq_ok_iff {x : Except ε α} {f : α → Except ε β} {b : β} :
    x >>= f = .ok b ↔ ∃ a, x = .ok a ∧ f a = .ok b := by
  cases x with
  | error e => simp [bind_error]
  | ok a => simp [bind_ok]

theorem bind_eq_error_iff {x : Except ε α} {f : α → Except ε β} {e : ε} :
    x >>= f = .error e ↔ x = .error e ∨ ∃ a, x = .ok a ∧ f a = .error e := by
  cases x with
  | error e => simp [bind_error]
  | ok a => simp [bind_ok]

/-- What no step fails with, the whole does not fail with. -/
lemma bind_ne_error {x : Except ε α} {f : α → Except ε β} {e : ε} (hx : x ≠ .error e)
    (hf : ∀ a, f a ≠ .error e) : x >>= f ≠ .error e := by
  intro h
  rcases bind_eq_error_iff.1 h with h | ⟨a, -, h⟩
  · exact hx h
  · exact hf a h

lemma mapM_ne_error {f : α → Except ε β} {e : ε} (hf : ∀ a, f a ≠ .error e) (items : List α) :
    items.mapM f ≠ .error e := by
  induction items with
  | nil =>
    intro h
    cases h
  | cons item items ih =>
    rw [List.mapM_cons]
    refine bind_ne_error (hf item) fun r => bind_ne_error ih fun rs h => ?_
    cases h

/-- Steps that fail all alike, where they fail, succeed on a list when no item is such a one. -/
theorem mapM_ite {p : α → Prop} [DecidablePred p] {f : α → Except ε β} {g : α → β} {e : ε}
    (h : ∀ a, f a = if p a then .ok (g a) else .error e) (items : List α) :
    items.mapM f = if ∀ a ∈ items, p a then .ok (items.map g) else .error e := by
  induction items with
  | nil => rfl
  | cons item items ih =>
    rw [List.mapM_cons, h, ih]
    simp only [List.forall_mem_cons]
    by_cases hitem : p item
    · simp only [hitem, if_true, true_and, bind_ok]
      split_ifs <;> rfl
    · simp only [hitem, if_false, false_and, bind_error]

@[simp] theorem mapError_eq_error_iff {φ : Type} {x : Except ε α} {f : ε → φ} {e : φ} :
    x.mapError f = .error e ↔ ∃ e', x = .error e' ∧ f e' = e := by
  cases x <;> simp [Except.mapError]

lemma map_eq_ok_iff {x : Except ε α} {f : α → β} {b : β} :
    x.map f = .ok b ↔ ∃ a, x = .ok a ∧ f a = b := by
  cases x <;> simp [Except.map]

lemma map_eq_error_iff {x : Except ε α} {f : α → β} {e : ε} :
    x.map f = .error e ↔ x = .error e := by
  cases x <;> simp [Except.map]

lemma exists_map_eq_ok_iff {x : Except ε α} {f : α → β} :
    (∃ b, x.map f = .ok b) ↔ ∃ a, x = .ok a := by
  cases x <;> simp [Except.map]

lemma exists_mapError_eq_ok_iff {φ : Type} {x : Except ε α} {f : ε → φ} :
    (∃ a, x.mapError f = .ok a) ↔ ∃ a, x = .ok a := by
  cases x <;> simp [Except.mapError]

theorem exists_bind_eq_ok_iff {x : Except ε α} {f : α → Except ε β} :
    (∃ b, x >>= f = .ok b) ↔ ∃ a, x = .ok a ∧ ∃ b, f a = .ok b := by
  simp only [bind_eq_ok_iff]
  constructor
  · rintro ⟨b, a, hx, hf⟩
    exact ⟨a, hx, b, hf⟩
  · rintro ⟨a, hx, b, hf⟩
    exact ⟨b, a, hx, hf⟩

/-- Two steps of which the second does not depend on the first. -/
lemma exists_pair_eq_ok_iff {γ : Type} {x : Except ε α} {y : Except ε β} {f : α → β → γ} :
    (∃ c, (x >>= fun a => y >>= fun b => .ok (f a b)) = .ok c) ↔
      (∃ a, x = .ok a) ∧ ∃ b, y = .ok b := by
  cases x <;> cases y <;> simp [bind_ok, bind_error]

/-- Steps on each item of a list succeed together. -/
theorem exists_mapM_eq_ok_iff {f : α → Except ε β} {items : List α} :
    (∃ results, items.mapM f = .ok results) ↔ ∀ item ∈ items, ∃ result, f item = .ok result := by
  induction items with
  | nil => exact iff_of_true ⟨[], rfl⟩ (List.forall_mem_nil _)
  | cons item items ih =>
    rw [List.forall_mem_cons, ← ih, List.mapM_cons]
    exact exists_pair_eq_ok_iff

/-- Each result of steps on the items of a list is that of some item. -/
lemma exists_of_mem_mapM {f : α → Except ε β} {items : List α} {results : List β}
    (h : items.mapM f = .ok results) {result : β} (hresult : result ∈ results) :
    ∃ item ∈ items, f item = .ok result := by
  induction items generalizing results with
  | nil =>
    cases h
    cases hresult
  | cons item items ih =>
    rw [List.mapM_cons] at h
    obtain ⟨first, hfirst, h⟩ := bind_eq_ok_iff.1 h
    obtain ⟨others, hothers, h⟩ := bind_eq_ok_iff.1 h
    cases h
    rcases List.mem_cons.1 hresult with rfl | hresult
    · exact ⟨item, List.mem_cons_self, hfirst⟩
    · obtain ⟨found, hfound, hstep⟩ := ih hothers hresult
      exact ⟨found, List.mem_cons_of_mem _ hfound, hstep⟩

/-- A run that folds in one item after the other succeeds when every item does. -/
theorem exists_foldlM_map_eq_ok_iff {f : α → Except ε β} {add : σ → α → β → σ} {s : σ}
    {items : List α} :
    (∃ result, items.foldlM (fun s a => (f a).map (add s a)) s = .ok result) ↔
      ∀ item ∈ items, ∃ result, f item = .ok result := by
  induction items generalizing s with
  | nil => exact iff_of_true ⟨s, rfl⟩ (List.forall_mem_nil _)
  | cons item items ih =>
    rw [List.forall_mem_cons, List.foldlM_cons, exists_bind_eq_ok_iff]
    simp only [ih]
    rw [← exists_map_eq_ok_iff (x := f item)]
    tauto

/-- A run that folds in one item after the other fails at the first item that does. -/
theorem foldlM_map_eq_error_iff {f : α → Except ε β} {add : σ → α → β → σ} {s : σ}
    {items : List α} {e : ε} :
    items.foldlM (fun s a => (f a).map (add s a)) s = .error e ↔
      ∃ before a after, items = before ++ a :: after ∧ (∀ b ∈ before, ∃ r, f b = .ok r) ∧
        f a = .error e := by
  induction items generalizing s with
  | nil =>
    constructor
    · intro h
      cases h
    · rintro ⟨before, a, after, h, -⟩
      simp at h
  | cons item items ih =>
    rw [List.foldlM_cons]
    cases h : f item with
    | error e' =>
      change Except.error e' = .error e ↔ _
      rw [Except.error.injEq]
      constructor
      · rintro rfl
        exact ⟨[], item, items, rfl, by simp, h⟩
      · rintro ⟨before, a, after, hitems, hbefore, ha⟩
        cases before with
        | nil =>
          obtain ⟨rfl, -⟩ := List.cons.inj hitems
          rw [h] at ha
          exact Except.error.inj ha
        | cons b before =>
          obtain ⟨rfl, -⟩ := List.cons.inj hitems
          obtain ⟨r, hr⟩ := hbefore _ List.mem_cons_self
          rw [h] at hr
          cases hr
    | ok r =>
      change List.foldlM _ (add s item r) items = _ ↔ _
      rw [ih]
      constructor
      · rintro ⟨before, a, after, rfl, hbefore, ha⟩
        refine ⟨item :: before, a, after, rfl, ?_, ha⟩
        rintro b (_ | ⟨_, hb⟩)
        · exact ⟨r, h⟩
        · exact hbefore b hb
      · rintro ⟨before, a, after, hitems, hbefore, ha⟩
        cases before with
        | nil =>
          obtain ⟨rfl, -⟩ := List.cons.inj hitems
          rw [h] at ha
          cases ha
        | cons b before =>
          obtain ⟨rfl, rfl⟩ := List.cons.inj hitems
          exact ⟨before, a, after, rfl, fun c hc => hbefore c (List.mem_cons_of_mem _ hc), ha⟩

end Except
