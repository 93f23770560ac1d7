import Interchange.Proofs.Workspace.Embedding

/-!
# Copies are independent

Two documents can share objects, and an edit of a shared object shows in both. A copy has objects of
its own only. What is done to one document, and to those made from it, reaches the objects that it
has, new ones and those that are handed over; so it never shows in a document with other objects.
Of a document and its copy neither can tell what is done to the other, as long as no object of the
one is handed to the other, which would be to act on both.
-/
namespace Interchange

/-- The objects of a sheet in a list. -/
def Sheet.parts (sheet : Sheet) : List ℕ :=
  sheet.content :: sheet.metadata :: (sheet.origin.map Origin.metadata).toList ++
    sheet.resources.values

lemma Sheet.holds_iff {sheet : Sheet} {n : ℕ} : sheet.Holds n ↔ n ∈ sheet.parts := by
  rw [parts, List.cons_append, List.cons_append, List.mem_cons, List.mem_cons, List.mem_append,
    Option.mem_toList, Option.map_eq_some_iff]
  constructor
  · rintro (_ | _ | h | h)
    · exact .inl rfl
    · exact .inr (.inl rfl)
    · exact .inr (.inr (.inl ⟨_, h, rfl⟩))
    · exact .inr (.inr (.inr (OrderedMap.mem_values_of_get? h)))
  · rintro (rfl | rfl | ⟨origin, h, rfl⟩ | h)
    · exact .content
    · exact .metadata
    · exact .origin h
    · obtain ⟨e, he, rfl⟩ := List.mem_map.1 h
      exact .resource (OrderedMap.get?_of_mem he)

instance (sheet : Sheet) (n : ℕ) : Decidable (sheet.Holds n) := decidable_of_iff _ Sheet.holds_iff.symm

namespace Workspace

variable {space next : Workspace} {step : Step} {own : String → Prop} {kept : ℕ → Prop}

/-- What a name stands for. -/
def documentOf? (space : Workspace) (name : String) : Option Document :=
  (space.sheets.get? name).map space.document

/-- A document depends on the objects of its sheet, and on no other. -/
lemma document_congr {sheet : Sheet}
    (h : ∀ n, sheet.Holds n → next.cells[n]? = space.cells[n]?) :
    next.document sheet = space.document sheet := by
  have hvalue {α : Type} [Kept α] {n : ℕ} (hn : sheet.Holds n) :
      (next.value n : α) = space.value n := by
    rw [value, value, value?, value?, h n hn]
  rw [document, document, hvalue .content, hvalue .metadata]
  congr 1
  · exact Option.map_congr fun origin horigin => by rw [hvalue (.origin horigin)]
  · exact OrderedMap.mapValues_congr fun e he =>
      hvalue (.resource (OrderedMap.get?_of_mem he))

/-- An edit of a resource shows in every document that has the object, under whatever identifier. -/
theorem resource?_editResource {id other : ResourceId} {n : ℕ} {name key : String} {value : Json}
    {sheet : Sheet} (hgrounded : space.Grounded) (hn : space.sheet.resources.get? id = some n)
    (hsheet : space.sheets.get? name = some sheet) (hother : sheet.resources.get? other = some n)
    (h : space.editResource id key value = .ok next) :
    ∃ metadata, setIn (space.value n : Resource).metadata key value = .ok metadata ∧
      (next.documentOf? name).bind (·.resource? other) =
        some { (space.value n : Resource) with metadata } := by
  rw [editResource, hn] at h
  obtain ⟨metadata, hset, h⟩ := Except.bind_eq_ok_iff.1 h
  cases h
  refine ⟨metadata, hset, ?_⟩
  have hlt : n < space.cells.size := hgrounded.lt_size (.resource hn)
  rw [documentOf?, edit, hsheet, Option.map_some, Option.bind_some, Document.resource?, document,
    OrderedMap.get?_mapValues, hother, Option.map_some, Workspace.value, value?,
    Array.getElem?_setIfInBounds_self_of_lt hlt, Option.bind_some, Kept.ofCell?_toCell]
  rfl

/-- The objects to be kept are there, and no sheet with a name in `own` has one of them. -/
def Shields (own : String → Prop) (kept : ℕ → Prop) (space : Workspace) : Prop :=
  ∀ n, kept n → n < space.cells.size ∧
    ∀ name sheet, own name → space.sheets.get? name = some sheet → ¬ sheet.Holds n

/-- What is done in `own` without the others: their sheets stay, and so do the objects to be kept,
which `own` does not come to have. -/
structure Spares (own : String → Prop) (kept : ℕ → Prop) (space next : Workspace) : Prop where
  others : ∀ name, ¬ own name → next.sheets.get? name = space.sheets.get? name
  cells : ∀ n, kept n → next.cells[n]? = space.cells[n]?
  current : own next.current
  shields : Shields own kept next

/-- A step on a document of `own` that mentions names of `own` only and in which nothing is handed
over that is to be kept. -/
theorem Effect.spares (h : Effect step space next) (hgrounded : space.Grounded)
    (hcurrent : own space.current) (hnames : ∀ name ∈ step.names, own name)
    (hbrings : ∀ n ∈ step.brings, ¬ kept n) (hshields : Shields own kept space) :
    Spares own kept space next := by
  cases h with
  | count => exact ⟨fun _ _ => rfl, fun _ _ => rfl, hcurrent, hshields⟩
  | @turn name _ hnamed =>
    exact ⟨fun _ _ => rfl, fun _ _ => rfl, hnames name hnamed, hshields⟩
  | edit _ hholds hsize hothers =>
    refine ⟨fun _ _ => rfl, fun m hm => hothers m ?_, hcurrent, fun m hm => ?_⟩
    · rintro rfl
      exact (hshields _ hm).2 _ _ hcurrent hgrounded.opened hholds
    · exact ⟨(hshields m hm).1.trans_eq hsize.symm, (hshields m hm).2⟩
  | @put _ name sheet _ hsame hkeeps hnamed hsheets hcomes =>
    have hname : own name := by
      rcases hnamed with rfl | hnamed
      · exact hcurrent
      · exact hnames name hnamed
    refine ⟨fun other hother => ?_, fun m hm => hkeeps.cells m (hshields m hm).1, hsame ▸ hcurrent,
      fun m hm => ⟨(hshields m hm).1.trans_le hkeeps.size, fun name' sheet' hown hsheet' hholds => ?_⟩⟩
    · rw [hsheets, OrderedMap.get?_insert, if_neg]
      rintro rfl
      exact hother hname
    · rw [hsheets, OrderedMap.get?_insert] at hsheet'
      split at hsheet'
      · obtain rfl := Option.some.inj hsheet'
        cases hcomes m hholds with
        | kept hold => exact (hshields m hm).2 _ _ hcurrent hgrounded.opened hold
        | brought hbrought => exact hbrings m hbrought hm
        | new hnew => exact absurd (hshields m hm).1 (Nat.not_lt.2 hnew)
      · exact (hshields m hm).2 name' sheet' hown hsheet' hholds

/-- A run on documents of `own`. -/
theorem spares_run {steps : List Step} (hgrounded : space.Grounded) (hcurrent : own space.current)
    (hnames : ∀ step ∈ steps, ∀ name ∈ step.names, own name)
    (hbrings : ∀ step ∈ steps, ∀ n ∈ step.brings, ¬ kept n) (hshields : Shields own kept space) :
    Spares own kept space (space.run steps) := by
  induction steps generalizing space with
  | nil => exact ⟨fun _ _ => rfl, fun _ _ => rfl, hcurrent, hshields⟩
  | cons step steps ih =>
    obtain ⟨hname, hlaterNames⟩ := List.forall_mem_cons.1 hnames
    obtain ⟨hbring, hlaterBrings⟩ := List.forall_mem_cons.1 hbrings
    rw [run, List.foldl_cons, Step.advance]
    cases happly : step.apply space with
    | error fault => exact ih hgrounded hcurrent hlaterNames hlaterBrings hshields
    | ok next =>
      have heffect := effect_of_apply happly
      have hstep := heffect.spares hgrounded hcurrent hname hbring hshields
      have hrest := ih (heffect.grounded hgrounded) hstep.current hlaterNames hlaterBrings
        hstep.shields
      exact ⟨fun other hother => (hrest.others other hother).trans (hstep.others other hother),
        fun n hn => (hrest.cells n hn).trans (hstep.cells n hn), hrest.current, hrest.shields⟩

/-- A run moves the source of identifiers on by the identifiers that it takes. -/
lemma ids_run (space : Workspace) (steps : List Step) : (space.run steps).ids =
    { space.ids with next := space.ids.next + steps.countP Step.mints } := by
  induction steps generalizing space with
  | nil => simp [run]
  | cons step steps ih =>
    have hrest : (space.run (step :: steps)).ids = ((step.advance space).run steps).ids := rfl
    rw [hrest, ih, ids_advance, List.countP_cons]
    by_cases hmints : step.mints = true
    · rw [if_pos hmints, if_pos hmints]
      push_cast
      congr 1
      ring
    · rw [if_neg hmints, if_neg hmints]
      simp

/-- Steps on a document, and on those that the steps make from it under names that are free, in which
no object of the other document is handed over. -/
def ActsOn (space : Workspace) (target other : String) (steps : List Step) : Prop :=
  ∀ step ∈ steps, (∀ name ∈ step.names, name = target ∨ space.sheets.get? name = none) ∧
    ∀ n ∈ step.brings, ∀ sheet ∈ space.sheets.get? other, ¬ sheet.Holds n

/-- The document and its copy under the name, one of which is worked on. -/
inductive IsPair (space : Workspace) (name : String) : String → String → Prop
  | copy : IsPair space name name space.current
  | original : IsPair space name space.current name

/-- Just after copying, a document and its copy are there, say the same and have no object in
common. -/
theorem apart_of_isPair {name target other : String} (hgrounded : space.Grounded)
    (hname : name ≠ space.current) (hpair : IsPair space name target other) :
    ∃ mine others, (space.copy name).sheets.get? target = some mine ∧
      (space.copy name).sheets.get? other = some others ∧
      (space.copy name).document others = space.currentDocument ∧
      ∀ n, others.Holds n → n < (space.copy name).cells.size ∧ ¬ mine.Holds n := by
  have hrenders := renders_addDocument space space.currentDocument
  rw [copy]
  generalize space.addDocument space.currentDocument = added at hrenders ⊢
  obtain ⟨copied, next⟩ := added
  obtain ⟨hgrows, hfresh, hdocument⟩ := hrenders
  have hcopied : (next.sheets.insert name copied).get? name = some copied := by
    rw [OrderedMap.get?_insert, if_pos rfl]
  have horiginal : (next.sheets.insert name copied).get? space.current = some space.sheet := by
    rw [OrderedMap.get?_insert, if_neg hname, hgrows.sheets, hgrounded.opened]
  have hold {n : ℕ} (hn : space.sheet.Holds n) : n < space.cells.size := hgrounded.lt_size hn
  cases hpair with
  | copy =>
    refine ⟨copied, space.sheet, hcopied, horiginal, ?_, fun n hn => ⟨?_, fun h => ?_⟩⟩
    · exact document_congr fun n hn => hgrows.cells n (hold hn)
    · exact (hold hn).trans_le hgrows.size
    · exact absurd (hold hn) (Nat.not_lt.2 (hfresh n h).1)
  | original =>
    refine ⟨space.sheet, copied, horiginal, hcopied, hdocument, fun n hn => ⟨?_, fun h => ?_⟩⟩
    · exact (hfresh n hn).2
    · exact absurd (hold h) (Nat.not_lt.2 (hfresh n hn).1)

/-- A resource of the original that is handed to the copy is one object with two owners. -/
example :
    let space := (start .standard).run [.embed (.fresh (.png ⟨#[1]⟩))]
    let steps : List Step := [.switchTo "b", .embed (.held 2),
      .editResource ⟨"res_1"⟩ "k" (.bool true)]
    space.currentDocument.resources.values.map (·.metadata.keys) = [[]] ∧
      (((space.copy "b").run steps).documentOf? "a").map
        (·.resources.values.map (·.metadata.keys)) = some [["k"]] := by
  decide +kernel

end Workspace

end Interchange
