/-!
# Ordered maps

A finite map that remembers the order in which its keys were first set. Setting a key that is
present keeps its place; a key that was removed and is set again goes to the end. The view of a
map is its list of entries, whose keys are all different.
-/
namespace Interchange

structure OrderedMap (κ ν : Type) where
  entries : List (κ × ν)
  nodup : (entries.map Prod.fst).Nodup

namespace OrderedMap

variable {κ ν : Type}

section Entries

variable [DecidableEq κ]

def lookup (key : κ) : List (κ × ν) → Option ν
  | [] => none
  | (k, v) :: rest => if k = key then some v else lookup key rest

/-- The entries with one more, in its old place when the key is there already. -/
def assign (key : κ) (value : ν) : List (κ × ν) → List (κ × ν)
  | [] => [(key, value)]
  | (k, v) :: rest => if k = key then (key, value) :: rest else (k, v) :: assign key value rest

def discard (key : κ) (entries : List (κ × ν)) : List (κ × ν) := entries.filter (·.1 ≠ key)

theorem mem_keys_assign {key k : κ} {value : ν} {entries : List (κ × ν)} :
    k ∈ (assign key value entries).map Prod.fst ↔ k = key ∨ k ∈ entries.map Prod.fst := by
  induction entries with
  | nil => simp [assign]
  | cons e rest ih =>
    obtain ⟨k', v⟩ := e
    by_cases h : k' = key
    · simp [assign, h]
    · simp only [assign, if_neg h, List.map_cons, List.mem_cons, ih]
      constructor <;> rintro (h | h | h) <;> simp [h]

theorem nodup_assign {key : κ} {value : ν} {entries : List (κ × ν)}
    (h : (entries.map Prod.fst).Nodup) : ((assign key value entries).map Prod.fst).Nodup := by
  induction entries with
  | nil => simp [assign]
  | cons e rest ih =>
    obtain ⟨k, v⟩ := e
    simp only [List.map_cons, List.nodup_cons] at h
    by_cases hk : k = key
    · subst hk
      simp only [assign, if_true, List.map_cons, List.nodup_cons]
      exact h
    · simp only [assign, if_neg hk, List.map_cons, List.nodup_cons]
      refine ⟨fun hmem => ?_, ih h.2⟩
      rcases mem_keys_assign.1 hmem with h' | h'
      · exact hk h'
      · exact h.1 h'

theorem nodup_discard {key : κ} {entries : List (κ × ν)} (h : (entries.map Prod.fst).Nodup) :
    ((discard key entries).map Prod.fst).Nodup :=
  h.sublist (List.filter_sublist.map _)

theorem lookup_assign (key k : κ) (value : ν) (entries : List (κ × ν)) :
    lookup k (assign key value entries) = if key = k then some value else lookup k entries := by
  induction entries with
  | nil => simp [assign, lookup]
  | cons e rest ih =>
    obtain ⟨k', v⟩ := e
    by_cases h : k' = key
    · subst h
      by_cases h' : k' = k <;> simp [assign, lookup, h']
    · simp only [assign, if_neg h, lookup, ih]
      by_cases h' : k' = k
      · subst h'
        simp [Ne.symm h]
      · simp [h']

theorem lookup_discard (key k : κ) (entries : List (κ × ν)) :
    lookup k (discard key entries) = if key = k then none else lookup k entries := by
  induction entries with
  | nil => simp [discard, lookup]
  | cons e rest ih =>
    obtain ⟨k', v⟩ := e
    by_cases h : k' = key
    · subst h
      have : discard k' ((k', v) :: rest) = discard k' rest := by simp [discard]
      rw [this, ih]
      by_cases h' : k' = k <;> simp [lookup, h']
    · have : discard key ((k', v) :: rest) = (k', v) :: discard key rest := by simp [discard, h]
      rw [this, lookup, lookup, ih]
      by_cases h' : k' = k
      · subst h'
        simp [Ne.symm h]
      · simp [h']

end Entries

def empty : OrderedMap κ ν := ⟨[], by simp⟩

instance : Inhabited (OrderedMap κ ν) := ⟨empty⟩

def keys (m : OrderedMap κ ν) : List κ := m.entries.map Prod.fst

def values (m : OrderedMap κ ν) : List ν := m.entries.map Prod.snd

def size (m : OrderedMap κ ν) : Nat := m.entries.length

def isEmpty (m : OrderedMap κ ν) : Bool := m.entries.isEmpty

/-- The same keys in the same order, each value changed. -/
def mapValues {ω : Type} (f : ν → ω) (m : OrderedMap κ ν) : OrderedMap κ ω :=
  ⟨m.entries.map fun e => (e.1, f e.2), by simpa [Function.comp_def] using m.nodup⟩

/-- The same keys in the same order, with numbers in a row from the given one on. -/
def numbered (m : OrderedMap κ ν) (first : Nat) : OrderedMap κ Nat :=
  ⟨m.keys.zipIdx first, by simpa [keys] using m.nodup⟩

variable [DecidableEq κ]

def get? (m : OrderedMap κ ν) (key : κ) : Option ν := lookup key m.entries

def contains (m : OrderedMap κ ν) (key : κ) : Bool := (m.get? key).isSome

def insert (m : OrderedMap κ ν) (key : κ) (value : ν) : OrderedMap κ ν :=
  ⟨assign key value m.entries, nodup_assign m.nodup⟩

def erase (m : OrderedMap κ ν) (key : κ) : OrderedMap κ ν :=
  ⟨discard key m.entries, nodup_discard m.nodup⟩

/-- The map after the entries are set one after the other. -/
def ofList (entries : List (κ × ν)) : OrderedMap κ ν :=
  entries.foldl (fun m e => m.insert e.1 e.2) empty

/-- Keys and values changed, in the same order; of entries whose keys have become one the last
counts. -/
def recast {κ' ω : Type} [DecidableEq κ'] (key : κ → κ') (value : ν → ω) (m : OrderedMap κ ν) :
    OrderedMap κ' ω :=
  ofList (m.entries.map fun e => (key e.1, value e.2))

@[simp] theorem get?_empty (key : κ) : (empty : OrderedMap κ ν).get? key = none := rfl

@[simp] theorem get?_insert (m : OrderedMap κ ν) (key k : κ) (value : ν) :
    (m.insert key value).get? k = if key = k then some value else m.get? k :=
  lookup_assign key k value m.entries

@[simp] theorem get?_erase (m : OrderedMap κ ν) (key k : κ) :
    (m.erase key).get? k = if key = k then none else m.get? k :=
  lookup_discard key k m.entries

end OrderedMap

end Interchange
