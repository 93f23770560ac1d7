import Interchange.OrderedMap
import Interchange.Proofs.Failure
import Mathlib.Tactic

/-!
# Laws of ordered maps

A key that is new goes to the end and changes nothing else, and the entries of a map, set one
after the other in their order, give the map again.
-/
namespace Interchange.OrderedMap

variable {κ ν : Type}

theorem eq_of_entries {m n : OrderedMap κ ν} (h : m.entries = n.entries) : m = n := by
  cases m
  cases n
  cases h
  rfl

@[simp] theorem keys_mapValues {ω : Type} (f : ν → ω) (m : OrderedMap κ ν) :
    (m.mapValues f).keys = m.keys := by
  simp [keys, mapValues]

theorem mapValues_congr {ω : Type} {f g : ν → ω} {m : OrderedMap κ ν}
    (h : ∀ e ∈ m.entries, f e.2 = g e.2) : m.mapValues f = m.mapValues g := by
  refine eq_of_entries (List.map_congr_left fun e he => ?_)
  rw [h e he]

variable [DecidableEq κ]

lemma lookup_eq_none_iff {key : κ} {entries : List (κ × ν)} :
    lookup key entries = none ↔ key ∉ entries.map Prod.fst := by
  induction entries with
  | nil => simp [lookup]
  | cons e rest ih =>
    obtain ⟨k, v⟩ := e
    by_cases h : k = key
    · simp [lookup, h]
    · simp [lookup, if_neg h, ih, Ne.symm h]

theorem get?_eq_none_iff {m : OrderedMap κ ν} {key : κ} : m.get? key = none ↔ key ∉ m.keys :=
  lookup_eq_none_iff

/-- The keys are all different, so an entry is the one that is found under its key. -/
lemma lookup_of_mem {key : κ} {value : ν} {entries : List (κ × ν)}
    (hnodup : (entries.map Prod.fst).Nodup) (hmem : (key, value) ∈ entries) :
    lookup key entries = some value := by
  induction entries with
  | nil => cases hmem
  | cons e rest ih =>
    obtain ⟨k, v⟩ := e
    rw [List.map_cons, List.nodup_cons] at hnodup
    rcases List.mem_cons.1 hmem with heq | hrest
    · cases heq
      exact if_pos rfl
    · have hne : k ≠ key := by
        rintro rfl
        exact hnodup.1 (List.mem_map.2 ⟨_, hrest, rfl⟩)
      rw [lookup, if_neg hne]
      exact ih hnodup.2 hrest

lemma mem_of_lookup {key : κ} {value : ν} {entries : List (κ × ν)}
    (h : lookup key entries = some value) : (key, value) ∈ entries := by
  induction entries with
  | nil => cases h
  | cons e rest ih =>
    obtain ⟨k, v⟩ := e
    by_cases hk : k = key
    · rw [lookup, if_pos hk, Option.some_inj] at h
      rw [hk, h]
      exact List.mem_cons_self
    · rw [lookup, if_neg hk] at h
      exact List.mem_cons_of_mem _ (ih h)

lemma mem_values_of_get? {m : OrderedMap κ ν} {key : κ} {value : ν}
    (h : m.get? key = some value) : value ∈ m.values :=
  List.mem_map.2 ⟨_, mem_of_lookup h, rfl⟩

theorem get?_of_mem {m : OrderedMap κ ν} {key : κ} {value : ν} (h : (key, value) ∈ m.entries) :
    m.get? key = some value :=
  lookup_of_mem m.nodup h

lemma lookup_map {ω : Type} (f : ν → ω) (key : κ) (entries : List (κ × ν)) :
    lookup key (entries.map fun e => (e.1, f e.2)) = (lookup key entries).map f := by
  induction entries with
  | nil => rfl
  | cons e rest ih =>
    obtain ⟨k, v⟩ := e
    by_cases h : k = key
    · simp [lookup, h]
    · simp [lookup, if_neg h, ih]

@[simp] theorem get?_mapValues {ω : Type} (f : ν → ω) (m : OrderedMap κ ν) (key : κ) :
    (m.mapValues f).get? key = (m.get? key).map f :=
  lookup_map f key m.entries

lemma assign_map {ω : Type} (f : ν → ω) (key : κ) (value : ν) (entries : List (κ × ν)) :
    (assign key value entries).map (fun e => (e.1, f e.2)) =
      assign key (f value) (entries.map fun e => (e.1, f e.2)) := by
  induction entries with
  | nil => rfl
  | cons e rest ih =>
    obtain ⟨k, v⟩ := e
    by_cases h : k = key
    · simp [assign, h]
    · simp [assign, if_neg h, ih]

theorem mapValues_insert {ω : Type} (f : ν → ω) (m : OrderedMap κ ν) (key : κ) (value : ν) :
    (m.insert key value).mapValues f = (m.mapValues f).insert key (f value) :=
  eq_of_entries (assign_map f key value m.entries)

lemma discard_assign (key : κ) (value : ν) (entries : List (κ × ν)) :
    discard key (assign key value entries) = discard key entries := by
  induction entries with
  | nil => simp [assign, discard]
  | cons e rest ih =>
    obtain ⟨k, v⟩ := e
    by_cases hk : k = key
    · simp [assign, discard, hk]
    · simpa [assign, discard, hk] using ih

@[simp] theorem erase_insert (m : OrderedMap κ ν) (key : κ) (value : ν) :
    (m.insert key value).erase key = m.erase key :=
  eq_of_entries (discard_assign key value m.entries)

lemma assign_of_notMem {key : κ} {value : ν} {entries : List (κ × ν)}
    (h : key ∉ entries.map Prod.fst) : assign key value entries = entries ++ [(key, value)] := by
  induction entries with
  | nil => rfl
  | cons e rest ih =>
    obtain ⟨k, v⟩ := e
    simp only [List.map_cons, List.mem_cons, not_or] at h
    rw [assign, if_neg (Ne.symm h.1), ih h.2, List.cons_append]

lemma assign_assign (key : κ) (value later : ν) (entries : List (κ × ν)) :
    assign key later (assign key value entries) = assign key later entries := by
  induction entries with
  | nil => simp [assign]
  | cons e rest ih =>
    obtain ⟨k, v⟩ := e
    by_cases hk : k = key
    · simp [assign, hk]
    · simp [assign, hk, ih]

/-- The last value that a key is set to stays. -/
@[simp] theorem insert_insert (m : OrderedMap κ ν) (key : κ) (value later : ν) :
    (m.insert key value).insert key later = m.insert key later :=
  eq_of_entries (assign_assign key value later m.entries)

lemma keys_assign_of_mem {key : κ} {value : ν} {entries : List (κ × ν)}
    (h : key ∈ entries.map Prod.fst) :
    (assign key value entries).map Prod.fst = entries.map Prod.fst := by
  induction entries with
  | nil => cases h
  | cons e rest ih =>
    obtain ⟨k, v⟩ := e
    by_cases hk : k = key
    · simp [assign, hk]
    · have hrest : key ∈ rest.map Prod.fst :=
        (List.mem_cons.1 h).resolve_left (Ne.symm hk)
      simp [assign, hk, ih hrest]

/-- A key that is set again keeps its place, and so do all others. -/
theorem keys_insert_of_mem {m : OrderedMap κ ν} {key : κ} {value : ν} (h : key ∈ m.keys) :
    (m.insert key value).keys = m.keys :=
  keys_assign_of_mem h

lemma length_assign_of_mem {key : κ} {value : ν} {entries : List (κ × ν)}
    (h : key ∈ entries.map Prod.fst) : (assign key value entries).length = entries.length := by
  have hkeys : (assign key value entries).map Prod.fst = entries.map Prod.fst :=
    keys_assign_of_mem h
  simpa using congrArg List.length hkeys

lemma mem_assign {key : κ} {value : ν} {entries : List (κ × ν)} {e : κ × ν}
    (h : e ∈ assign key value entries) : e = (key, value) ∨ e ∈ entries := by
  induction entries with
  | nil => exact .inl (List.mem_singleton.1 h)
  | cons first rest ih =>
    rw [assign] at h
    split at h
    · exact (List.mem_cons.1 h).imp_right (List.mem_cons_of_mem _)
    · rcases List.mem_cons.1 h with rfl | hrest
      · exact .inr List.mem_cons_self
      · exact (ih hrest).imp_right (List.mem_cons_of_mem _)

lemma mem_foldl_insert {entries : List (κ × ν)} {m : OrderedMap κ ν} {e : κ × ν}
    (h : e ∈ (entries.foldl (fun m e => m.insert e.1 e.2) m).entries) :
    e ∈ m.entries ∨ e ∈ entries := by
  induction entries generalizing m with
  | nil => exact .inl h
  | cons first rest ih =>
    rcases ih h with hmem | hrest
    · rcases mem_assign hmem with rfl | hold
      · exact .inr List.mem_cons_self
      · exact .inl hold
    · exact .inr (List.mem_cons_of_mem _ hrest)

/-- Every entry of a map was set. -/
lemma mem_of_mem_ofList {entries : List (κ × ν)} {e : κ × ν} (h : e ∈ (ofList entries).entries) :
    e ∈ entries :=
  (mem_foldl_insert h).resolve_left List.not_mem_nil

lemma mem_of_mem_values_ofList {entries : List (κ × ν)} {v : ν} (h : v ∈ (ofList entries).values) :
    v ∈ entries.map Prod.snd := by
  obtain ⟨e, he, rfl⟩ := List.mem_map.1 h
  exact List.mem_map_of_mem (mem_of_mem_ofList he)

theorem entries_insert_of_notMem {m : OrderedMap κ ν} {key : κ} {value : ν} (h : key ∉ m.keys) :
    (m.insert key value).entries = m.entries ++ [(key, value)] :=
  assign_of_notMem h

/-- Setting a key makes a map larger only when the key is new. -/
theorem size_insert (m : OrderedMap κ ν) (key : κ) (value : ν) :
    (m.insert key value).size = if key ∈ m.keys then m.size else m.size + 1 := by
  split_ifs with h
  · exact length_assign_of_mem h
  · rw [size, entries_insert_of_notMem h, List.length_append]
    rfl

/-- The induction is on what is still to be set; what was set already are the entries before. -/
lemma foldl_insert_rest {m : OrderedMap κ ν} (rest : List (κ × ν)) (n : OrderedMap κ ν)
    (h : n.entries ++ rest = m.entries) : rest.foldl (fun m e => m.insert e.1 e.2) n = m := by
  induction rest generalizing n with
  | nil =>
    rw [List.append_nil] at h
    exact eq_of_entries h
  | cons e rest ih =>
    have hkeys : (n.entries.map Prod.fst ++ e.1 :: rest.map Prod.fst).Nodup := by
      have := m.nodup
      rwa [← h, List.map_append, List.map_cons] at this
    have hnew : e.1 ∉ n.keys := by
      intro hmem
      exact (List.nodup_append.1 hkeys).2.2 _ hmem _ List.mem_cons_self rfl
    rw [List.foldl_cons]
    refine ih (n.insert e.1 e.2) ?_
    rw [entries_insert_of_notMem hnew, List.append_assoc]
    exact h

theorem entries_ofList {entries : List (κ × ν)} (h : (entries.map Prod.fst).Nodup) :
    (ofList entries).entries = entries :=
  congrArg OrderedMap.entries (foldl_insert_rest entries empty rfl : ofList entries = ⟨entries, h⟩)

/-- A change that is taken back, key by key and value by value. -/
theorem recast_recast {κ' ω : Type} [DecidableEq κ'] {key : κ → κ'} {value : ν → ω}
    {key' : κ' → κ} {value' : ω → ν} (hkey : ∀ k, key' (key k) = k)
    (hvalue : ∀ v, value' (value v) = v) (m : OrderedMap κ ν) :
    (m.recast key value).recast key' value' = m := by
  have hinjective : Function.Injective key := Function.LeftInverse.injective hkey
  have hkeys : ((m.entries.map fun e => (key e.1, value e.2)).map Prod.fst).Nodup := by
    have hnodup := m.nodup.map hinjective
    rwa [List.map_map] at hnodup ⊢
  have hback : ((m.entries.map fun e => (key e.1, value e.2)).map
      fun e => (key' e.1, value' e.2)) = m.entries := by
    rw [List.map_map]
    refine (List.map_congr_left fun e _ => ?_).trans (List.map_id _)
    exact Prod.ext (hkey e.1) (hvalue e.2)
  refine eq_of_entries ?_
  rw [recast, recast, entries_ofList hkeys, hback]
  exact entries_ofList m.nodup

/-- A map is built again from what is written of its entries, if each is read back and set. -/
theorem foldlM_insert_entries {ε α : Type} {write : κ × ν → α}
    {set : OrderedMap κ ν → α → Except ε (OrderedMap κ ν)}
    (hset : ∀ m e, set m (write e) = .ok (m.insert e.1 e.2)) (m : OrderedMap κ ν) :
    (m.entries.map write).foldlM set empty = .ok m := by
  rw [List.foldlM_map]
  simp only [hset]
  exact List.foldlM_pure.trans (congrArg Except.ok (foldl_insert_rest m.entries empty rfl))

/-- What holds of every entry that is set holds of all of a map that is built by setting. -/
theorem forall_mem_entries_foldlM {ε α : Type} {Q : κ × ν → Prop} {key : α → κ}
    {read : α → Except ε ν} {items : List α} {start m : OrderedMap κ ν}
    (h : items.foldlM (fun m item => (read item).map (m.insert (key item))) start = .ok m)
    (hstart : ∀ e ∈ start.entries, Q e)
    (hread : ∀ item ∈ items, ∀ value, read item = .ok value → Q (key item, value)) :
    ∀ e ∈ m.entries, Q e := by
  induction items generalizing start with
  | nil =>
    cases h
    exact hstart
  | cons item items ih =>
    rw [List.forall_mem_cons] at hread
    rw [List.foldlM_cons] at h
    obtain ⟨next, hnext, h⟩ := Except.bind_eq_ok_iff.1 h
    obtain ⟨value, hvalue, rfl⟩ := Except.map_eq_ok_iff.1 hnext
    refine ih h (fun e he => ?_) hread.2
    rcases mem_assign he with rfl | hold
    · exact hread.1 value hvalue
    · exact hstart e hold

end Interchange.OrderedMap
