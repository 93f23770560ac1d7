import Interchange.Word.Body
import Mathlib.Data.List.SplitBy
import Mathlib.Tactic

/-!
# Entries put together

The entries of a body are cut into runs that are as long as they can be: items of one kind, or a
single other entry. Each run of items makes up one list. So what is taken from the blocks one by one
is what each entry gives.
-/
namespace Interchange.Word.Entry

/-- Whether two entries that follow each other are items of one list. -/
def joins : Entry → Entry → Bool
  | .item kind _, .item kind' _ => kind == kind'
  | _, _ => false

/-- What a run of entries is put together to. -/
inductive PutTogether : List Entry → List Node → Prop where
  | items (ordered : Bool) {items : List Node} (h : items ≠ []) :
    PutTogether (items.map (.item ordered)) [.list ordered items]
  | block (node : Node) : PutTogether [.block node] [node]
  | nothing : PutTogether [.nothing] []
  | pageBreak : PutTogether [.pageBreak] [.pageBreak]

/-- The runs of entries are put together one by one. -/
def Grouped (entries : List Entry) (blocks : List Node) : Prop :=
  ∃ parts, List.Forall₂ PutTogether (entries.splitBy joins) parts ∧ parts.flatten = blocks

lemma isChain_items (ordered : Bool) (items : List Node) :
    (items.map (Entry.item ordered)).IsChain fun e e' => joins e e' = true := by
  refine List.Pairwise.isChain (List.pairwise_map.2 ?_)
  exact List.pairwise_of_forall fun _ _ => beq_self_eq_true ordered

namespace Grouped

variable {entries rest : List Entry} {blocks others : List Node} {ordered : Bool}

lemma nil : Grouped [] [] := ⟨[], .nil, rfl⟩

/-- Runs stay runs before an entry that does not join the last one. -/
lemma append (h : Grouped entries blocks) (hrest : Grouped rest others)
    (hcut : ∀ e ∈ entries.getLast?, ∀ e' ∈ rest.head?, joins e e' = false) :
    Grouped (entries ++ rest) (blocks ++ others) := by
  obtain ⟨parts, hparts, rfl⟩ := h
  obtain ⟨parts', hparts', rfl⟩ := hrest
  refine ⟨parts ++ parts', ?_, List.flatten_append⟩
  rw [List.splitBy_append hcut]
  exact List.rel_append hparts hparts'

lemma listOf (ordered : Bool) (items : List Node) :
    Grouped (items.map (.item ordered)) (listOf ordered items) := by
  by_cases hitems : items = []
  · subst hitems
    exact nil
  · refine ⟨[[.list ordered items]], ?_, ?_⟩
    · rw [List.splitBy_of_isChain (by simpa using hitems) (isChain_items ordered items)]
      exact .cons (.items ordered hitems) .nil
    · rw [Entry.listOf, if_neg (by simpa using hitems), List.flatten_singleton]

/-- An entry that is no item is a run by itself, and ends the list before it. -/
lemma cons {entry : Entry} (hentry : ∀ e, joins entry e = false ∧ joins e entry = false)
    (hrest : Grouped rest others) {part : List Node} (hpart : PutTogether [entry] part)
    (ordered : Bool) (items : List Node) :
    Grouped (items.map (.item ordered) ++ entry :: rest)
      (Entry.listOf ordered items ++ (part ++ others)) := by
  have hown : Grouped [entry] part := ⟨[part], .cons hpart .nil, List.append_nil part⟩
  have hafter : Grouped (entry :: rest) (part ++ others) :=
    hown.append hrest fun e he e' _ => by
      obtain rfl : entry = e := by simpa using he
      exact (hentry e').1
  refine (listOf ordered items).append hafter fun e _ e' he' => ?_
  obtain rfl : entry = e' := by simpa using he'
  exact (hentry e).2

end Grouped

/-- The induction carries the list that has been begun: its items are the run before the entries. -/
theorem grouped_blocksAfter (ordered : Bool) (items : List Node) (entries : List Entry) :
    Grouped (items.map (.item ordered) ++ entries) (blocksAfter ordered items entries) := by
  induction entries generalizing ordered items with
  | nil =>
    rw [List.append_nil]
    exact .listOf ordered items
  | cons entry entries ih =>
    cases entry with
    | item kind node =>
      rw [blocksAfter]
      split
      · next hkind =>
        subst hkind
        have hitems := ih kind (items ++ [node])
        rwa [List.map_append, List.append_assoc] at hitems
      · next hkind =>
        refine (Grouped.listOf ordered items).append (ih kind [node]) fun e he e' he' => ?_
        obtain ⟨other, -, rfl⟩ := List.mem_map.1 (List.mem_of_getLast? he)
        obtain rfl : Entry.item kind node = e' := by simpa using he'
        exact beq_false_of_ne (Ne.symm hkind)
    | block node =>
      exact .cons (fun e => ⟨rfl, by cases e <;> rfl⟩) (ih ordered []) (.block node) ordered items
    | nothing =>
      exact .cons (fun e => ⟨rfl, by cases e <;> rfl⟩) (ih ordered []) .nothing ordered items
    | pageBreak =>
      exact .cons (fun e => ⟨rfl, by cases e <;> rfl⟩) (ih ordered []) .pageBreak ordered items

theorem grouped_blocks (entries : List Entry) : Grouped entries (blocks entries) :=
  grouped_blocksAfter false [] entries

/-- What is taken from blocks one by one is what each entry gives, when this holds of every run. -/
theorem Grouped.taken {β : Type} {take : List Node → List β} {give : Entry → List β}
    {entries : List Entry} {blocks : List Node} (h : Grouped entries blocks) (hnil : take [] = [])
    (happend : ∀ front back, take (front ++ back) = take front ++ take back)
    (hpart : ∀ run ∈ entries.splitBy joins, ∀ part, PutTogether run part →
      take part = run.flatMap give) : take blocks = entries.flatMap give := by
  obtain ⟨parts, hparts, rfl⟩ := h
  conv_rhs => rw [← List.flatten_splitBy joins entries]
  generalize entries.splitBy joins = runs at hparts hpart
  induction hparts with
  | nil => exact hnil
  | cons hfirst _ ih =>
    obtain ⟨hrun, hruns⟩ := List.forall_mem_cons.1 hpart
    rw [List.flatten_cons, List.flatten_cons, happend, List.flatMap_append, hrun _ hfirst, ih hruns]

end Interchange.Word.Entry
