import Interchange.Proofs.Number.Digits
import Interchange.Proofs.Workspace.Run

/-!
# The identifiers of a workspace

The source of a workspace moves on by one with each identifier that it hands out, and nothing else
that is done to the documents moves it: not removal, not copying or transforming, not turning to
another document, not a step that fails. The identifiers of a run are therefore consecutive ones of
the source, whichever documents they went to.

In every run the identifiers that sheets keep are accounted for: each was brought in by a step or
was taken from the source at a number that is behind. What the source gives next can therefore clash
with an identifier that was brought in, and with no other.
-/
namespace Interchange.Workspace

/-- The identifier that a step hands out, if it does. -/
def minted? (space : Workspace) : Step → Option ResourceId
  | .embed given => some (space.embed given).1
  | .nextId => some space.nextId.1
  | _ => none

/-- The identifiers that the steps of a run hand out, in their order. -/
def minted (space : Workspace) : List Step → List ResourceId
  | [] => []
  | step :: steps => (space.minted? step).toList ++ (step.advance space).minted steps

/-- An identifier is handed out by the steps that take one from the source, and is the next one. -/
lemma minted?_eq (space : Workspace) (step : Step) :
    space.minted? step = if step.mints then some (space.ids.nth space.ids.next) else none := by
  cases step <;> rfl

/-- A step that takes an identifier from the source does not fail. -/
lemma exists_apply_of_mints (space : Workspace) {step : Step} (h : step.mints = true) :
    ∃ next, step.apply space = .ok next := by
  cases step with
  | embed given => exact ⟨_, rfl⟩
  | nextId => exact ⟨_, rfl⟩
  | _ => cases h

lemma ids_advance (space : Workspace) (step : Step) :
    (step.advance space).ids =
      if step.mints then { space.ids with next := space.ids.next + 1 } else space.ids := by
  unfold Step.advance
  split
  · next next happly => exact (effect_of_apply happly).ids_eq
  · next fault hfault =>
    rw [if_neg]
    intro hmints
    obtain ⟨next, happly⟩ := exists_apply_of_mints space hmints
    rw [happly] at hfault
    cases hfault

/-- The identifiers of a run are consecutive, from the next one of the source on. -/
theorem minted_eq (space : Workspace) (steps : List Step) :
    space.minted steps =
      (List.range (steps.countP Step.mints)).map fun i : ℕ =>
        space.ids.nth (space.ids.next + i) := by
  induction steps generalizing space with
  | nil => rfl
  | cons step steps ih =>
    rw [minted, minted?_eq, ih, ids_advance]
    by_cases hmints : step.mints = true
    · -- The rest of the run starts at the number after the one that is handed out.
      have hshift (i : ℕ) : space.ids.next + 1 + (i : ℤ) = space.ids.next + ((i + 1 : ℕ) : ℤ) := by
        push_cast
        ring
      rw [if_pos hmints, if_pos hmints, List.countP_cons_of_pos hmints, List.range_succ_eq_map,
        List.map_cons, List.map_map, Nat.cast_zero, add_zero]
      refine congrArg (_ :: ·) (List.map_congr_left fun i _ => ?_)
      exact congrArg space.ids.nth (hshift i)
    · rw [List.countP_cons_of_neg hmints, if_neg hmints, if_neg hmints]
      rfl

/-- No identifier is handed out twice: one comes from each step that takes one, and they are all
different, for every stem and every number to begin with. -/
theorem nodup_minted (space : Workspace) (steps : List Step) :
    (space.minted steps).length = steps.countP Step.mints ∧ (space.minted steps).Nodup := by
  rw [minted_eq]
  constructor
  · rw [List.length_map, List.length_range]
  · refine List.nodup_range.map fun i j h => ?_
    have hnumber : space.ids.next + (i : ℤ) = space.ids.next + j :=
      IdSource.nth_injective space.ids h
    omega

/-- The number goes on after a resource is gone, and across zero. -/
example : (start ⟨"n", -1⟩).minted
    [.embed (.fresh (.png ⟨#[1]⟩)), .remove ⟨"n-1"⟩, .copy "b", .switchTo "b", .nextId, .nextId] =
      [⟨"n-1"⟩, ⟨"n0"⟩, ⟨"n1"⟩] := by
  decide +kernel

variable {space next : Workspace} {step : Step} {id : ResourceId} {restored : List ResourceId}

/-- The identifiers that the steps of a run bring from elsewhere. -/
def restoredIds (steps : List Step) : List ResourceId := steps.flatMap Step.restored

/-- Some sheet has a resource under an identifier. -/
def Refers (space : Workspace) (id : ResourceId) : Prop :=
  ∃ name sheet n, space.sheets.get? name = some sheet ∧ sheet.resources.get? id = some n

/-- Every identifier of a resource was restored or is one that the source has left behind. -/
def Accounted (restored : List ResourceId) (space : Workspace) : Prop :=
  ∀ id, space.Refers id → id ∈ restored ∨ ∃ m < space.ids.next, id = space.ids.nth m

namespace Effect

lemma nth_eq (h : Effect step space next) (m : ℤ) : next.ids.nth m = space.ids.nth m := by
  rw [h.ids_eq]
  split <;> rfl

lemma next_le (h : Effect step space next) : space.ids.next ≤ next.ids.next := by
  rw [h.ids_eq]
  split
  · dsimp only
    omega
  · exact le_rfl

lemma next_lt (h : Effect step space next) (hmints : step.mints = true) :
    space.ids.next < next.ids.next := by
  rw [h.ids_eq, if_pos hmints]
  dsimp only
  omega

/-- Everything new is restored, minted or kept elsewhere already. -/
lemma refers (h : Effect step space next) (hgrounded : space.Grounded) (hid : next.Refers id) :
    id ∈ step.restored ∨ step.mints = true ∧ id = space.ids.nth space.ids.next ∨
      space.Refers id := by
  cases h with
  | count => exact .inr (.inr hid)
  | turn => exact .inr (.inr hid)
  | edit => exact .inr (.inr hid)
  | @put _ name sheet _ _ _ _ hsheets _ hknown =>
    obtain ⟨name', sheet', n, hsheet', hn⟩ := hid
    rw [hsheets, OrderedMap.get?_insert] at hsheet'
    split at hsheet'
    · obtain rfl := Option.some.inj hsheet'
      rcases hknown id n hn with hrestored | hminted | ⟨m, hm⟩
      · exact .inl hrestored
      · exact .inr (.inl hminted)
      · exact .inr (.inr ⟨_, _, m, hgrounded.opened, hm⟩)
    · exact .inr (.inr ⟨name', sheet', n, hsheet', hn⟩)

end Effect

namespace Accounted

lemma start (ids : IdSource) : Accounted [] (start ids) := by
  rintro id ⟨name, sheet, n, hsheet, hid⟩
  have hfirst : (OrderedMap.empty.insert firstName
      (addDocument ⟨ids, #[], .empty, firstName⟩ .empty).1).get? name = some sheet := hsheet
  rw [OrderedMap.get?_insert] at hfirst
  split at hfirst
  · obtain rfl := Option.some.inj hfirst
    cases hid
  · cases hfirst

lemma mono (h : Accounted restored space) (more : List ResourceId) :
    Accounted (restored ++ more) space := fun id hid =>
  (h id hid).imp_left (List.mem_append_left more)

lemma of_effect (h : Accounted restored space) (hgrounded : space.Grounded)
    (hstep : Effect step space next) : Accounted (restored ++ step.restored) next := by
  intro id hid
  rcases hstep.refers hgrounded hid with hrestored | ⟨hmints, hminted⟩ | hold
  · exact .inl (List.mem_append_right restored hrestored)
  · exact .inr ⟨space.ids.next, hstep.next_lt hmints, by rw [hstep.nth_eq, hminted]⟩
  · rcases h.mono step.restored id hold with hknown | ⟨m, hm, hnth⟩
    · exact .inl hknown
    · exact .inr ⟨m, hm.trans_le hstep.next_le, by rw [hstep.nth_eq, hnth]⟩

lemma run (h : Accounted restored space) (hgrounded : space.Grounded) (steps : List Step) :
    Accounted (restored ++ restoredIds steps) (space.run steps) := by
  induction steps generalizing restored space with
  | nil => exact h.mono []
  | cons step steps ih =>
    rw [restoredIds, List.flatMap_cons, ← List.append_assoc, Workspace.run, List.foldl_cons,
      Step.advance]
    cases happly : step.apply space with
    | ok next =>
      have hstep := effect_of_apply happly
      exact ih (h.of_effect hgrounded hstep) (hstep.grounded hgrounded)
    | error fault => exact ih (h.mono step.restored) hgrounded

end Accounted

theorem accounted_run (ids : IdSource) (steps : List Step) :
    Accounted (restoredIds steps) ((start ids).run steps) :=
  (Accounted.start ids).run (grounded_start ids) steps

/-- Seen as documents, a resource is set in a table of resources. -/
theorem resources_insert (h : space.Grounded) (id : ResourceId) (given : Given Resource) :
    (space.insert id given).currentDocument.resources =
      space.currentDocument.resources.insert id (space.valueOf given) := by
  have hgrows := grows_accept space given
  have hold : space.sheet.resources.mapValues (space.accept given).2.value =
      space.sheet.resources.mapValues (space.value : ℕ → Resource) :=
    OrderedMap.mapValues_congr fun e he =>
      hgrows.value_eq (h.lt_size (.resource (OrderedMap.get?_of_mem he)))
  rw [insert_eq, currentDocument, sheet_putSheet]
  change (space.sheet.resources.insert id (space.accept given).1).mapValues
    (space.accept given).2.value = _
  rw [OrderedMap.mapValues_insert, value_accept, hold]
  rfl

/-- A resource, which may be an object of some document already, is embedded without harm to those
that were there. -/
structure EmbedsApart (space : Workspace) (given : Given Resource) : Prop where
  fresh : (space.embed given).1 ∉ space.currentDocument.resources.keys
  stored : (space.embed given).2.currentDocument.resource? (space.embed given).1 =
    some (space.valueOf given)
  kept : ∀ id old, space.currentDocument.resource? id = some old →
    (space.embed given).2.currentDocument.resource? id = some old
  grown : (space.embed given).2.currentDocument.resources.size =
    space.currentDocument.resources.size + 1

lemma resources_embed (h : space.Grounded) (given : Given Resource) :
    (space.embed given).2.currentDocument.resources =
      space.currentDocument.resources.insert space.nextId.1 (space.valueOf given) :=
  have hnext : space.nextId.2.Grounded := ⟨h.opened, h.has⟩
  resources_insert hnext space.nextId.1 given

lemma embedsApart_iff_notMem (h : space.Grounded) (given : Given Resource) :
    EmbedsApart space given ↔ space.nextId.1 ∉ space.currentDocument.resources.keys := by
  constructor
  · intro hapart
    exact hapart.fresh
  · intro hfresh
    have table := resources_embed h given
    constructor
    · exact hfresh
    · rw [Document.resource?, table, OrderedMap.get?_insert]
      exact if_pos rfl
    · intro id old hold
      have hne : space.nextId.1 ≠ id := by
        rintro rfl
        rw [Document.resource?, OrderedMap.get?_eq_none_iff.2 hfresh] at hold
        cases hold
      rw [Document.resource?, table, OrderedMap.get?_insert, if_neg hne]
      exact hold
    · rw [table, OrderedMap.size_insert, if_neg hfresh]

/-- The source never gives an identifier that it gave before. -/
lemma mem_restored_of_nextId (h : Accounted restored space) (hgrounded : space.Grounded)
    (hmem : space.nextId.1 ∈ space.currentDocument.resources.keys) :
    space.nextId.1 ∈ restored := by
  rw [currentDocument, document, OrderedMap.keys_mapValues] at hmem
  obtain ⟨e, he, hid⟩ := List.mem_map.1 hmem
  have hrefers : space.Refers e.1 := ⟨_, _, e.2, hgrounded.opened, OrderedMap.get?_of_mem he⟩
  rcases h e.1 hrefers with hrestored | ⟨m, hm, hnth⟩
  · exact hid ▸ hrestored
  · have hnext : space.ids.next = m := IdSource.nth_injective space.ids (hid.symm.trans hnth)
    omega

/-- However a workspace was reached, embedding displaces nothing exactly when no identifier that
was brought in and is still in the table is the one that the source gives next. -/
theorem embedsApart_run_iff (ids : IdSource) (steps : List Step) (given : Given Resource) :
    EmbedsApart ((start ids).run steps) given ↔
      ∀ id ∈ restoredIds steps, id ∈ ((start ids).run steps).currentDocument.resources.keys →
        id ≠ ((start ids).run steps).nextId.1 := by
  have hgrounded := grounded_run (grounded_start ids) steps
  rw [embedsApart_iff_notMem hgrounded]
  constructor
  · rintro hfresh id - hmem rfl
    exact hfresh hmem
  · intro hapart hmem
    exact hapart _ (mem_restored_of_nextId (accounted_run ids steps) hgrounded hmem) hmem rfl

/-- A source that starts anew gives again the first identifier of an earlier one. -/
theorem not_embedsApart_restored :
    ¬EmbedsApart ((start .standard).run [.insert ⟨"res_0"⟩ (.fresh (.png ⟨#[1]⟩))])
      (.fresh (.jpeg ⟨#[2]⟩)) := by
  intro h
  exact h.fresh (by decide +kernel)

end Interchange.Workspace
