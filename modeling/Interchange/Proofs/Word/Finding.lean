import Interchange.Proofs.Number.Digits
import Interchange.Proofs.OrderedMap
import Interchange.Word.Inline
import Mathlib.Data.List.Forall2
import Mathlib.Tactic

/-!
# What findings give and add

A finding has a property when its result has it, if there is a result, whatever was found before;
and no finding takes a notice back. Both go from the steps to the whole. Resources are added under
identifiers that are counted up, so each identifier is new, and what a finding results in is related
to the identifiers that it adds, in their order.
-/
namespace Interchange.Word.Finding

variable {α β : Type} {P : α → Prop} {Q : β → Prop}

/-- What the first step results in goes into the next. -/
lemma bind_eq_some {first : Finding α} {next : α → Finding β} {before after : Findings} {b : β}
    (h : (first >>= next) before = some (b, after)) :
    ∃ a middle, first before = some (a, middle) ∧ next a middle = some (b, after) := by
  obtain ⟨⟨a, middle⟩, ha, hb⟩ := Option.bind_eq_some_iff.1 h
  exact ⟨a, middle, ha, hb⟩

lemma bind_of_eq_some {first : Finding α} {next : α → Finding β} {before middle after : Findings}
    {a : α} {b : β} (ha : first before = some (a, middle)) (hb : next a middle = some (b, after)) :
    (first >>= next) before = some (b, after) :=
  Option.bind_eq_some_iff.2 ⟨(a, middle), ha, hb⟩

/-- What is readable is the result, and nothing is noted. -/
lemma need_eq_some {value : Option α} {before after : Findings} {a : α}
    (h : need value before = some (a, after)) : value = some a ∧ before = after := by
  obtain ⟨b, hb, hpair⟩ := Option.map_eq_some_iff.1 h
  obtain ⟨rfl, rfl⟩ := Prod.mk.inj hpair
  exact ⟨hb, rfl⟩

/-- Results have the property, and the notices made before are kept. -/
def Gives (finding : Finding α) (P : α → Prop) : Prop :=
  ∀ before a after, finding before = some (a, after) → P a ∧ before.notices <+: after.notices

lemma Gives.mono {finding : Finding α} {P' : α → Prop} (h : Gives finding P)
    (himp : ∀ a, P a → P' a) : Gives finding P' :=
  fun before a after hresult => (h before a after hresult).imp_left (himp a)

/-- What a finding may result in. -/
def Results (finding : Finding α) (a : α) : Prop :=
  ∃ before after, finding before = some (a, after)

/-- What is given is a result. -/
lemma Gives.results {finding : Finding α} (h : Gives finding P) :
    Gives finding fun a => Results finding a ∧ P a :=
  fun before a after hresult =>
    (h before a after hresult).imp_left fun hproperty => ⟨⟨before, after, hresult⟩, hproperty⟩

lemma gives_pure {a : α} (h : P a) : Gives (pure a) P := by
  intro before b after hresult
  obtain ⟨rfl, rfl⟩ := Prod.mk.inj (Option.some.inj hresult)
  exact ⟨h, List.prefix_refl _⟩

lemma Gives.bind {first : Finding α} {next : α → Finding β} (hfirst : Gives first P)
    (hnext : ∀ a, P a → Gives (next a) Q) : Gives (first >>= next) Q := by
  intro before b after hresult
  obtain ⟨a, middle, ha, hb⟩ := bind_eq_some hresult
  obtain ⟨hproperty, hbefore⟩ := hfirst before a middle ha
  obtain ⟨hresult, hmiddle⟩ := hnext a hproperty middle b after hb
  exact ⟨hresult, hbefore.trans hmiddle⟩

lemma gives_note (notice : Notice) : Gives (note notice) fun _ => True := by
  intro before a after hresult
  obtain ⟨-, rfl⟩ := Prod.mk.inj (Option.some.inj hresult)
  exact ⟨trivial, List.prefix_append _ _⟩

lemma gives_embed (resource : Resource) : Gives (embed resource) fun _ => True := by
  intro before a after hresult
  obtain ⟨-, rfl⟩ := Prod.mk.inj (Option.some.inj hresult)
  exact ⟨trivial, List.prefix_refl _⟩

lemma gives_need {value : Option α} (h : ∀ a, value = some a → P a) : Gives (need value) P := by
  intro before a after hresult
  obtain ⟨ha, rfl⟩ := need_eq_some hresult
  exact ⟨h a ha, List.prefix_refl _⟩

lemma gives_mapM {R : α → β → Prop} {step : α → Finding β} (h : ∀ a, Gives (step a) (R a))
    (items : List α) : Gives (items.mapM step) (List.Forall₂ R items) := by
  induction items with
  | nil => exact gives_pure .nil
  | cons item items ih =>
    rw [List.mapM_cons]
    exact (h item).bind fun b hb => ih.bind fun bs hbs => gives_pure (.cons hb hbs)

lemma gives_mapM_forall {step : α → Finding β} (h : ∀ a, Gives (step a) Q) (items : List α) :
    Gives (items.mapM step) fun bs => ∀ b ∈ bs, Q b := by
  refine (gives_mapM h items).mono fun bs hbs => ?_
  induction hbs with
  | nil => exact List.forall_mem_nil Q
  | cons hb _ ih => exact List.forall_mem_cons.2 ⟨hb, ih⟩

end Interchange.Word.Finding

namespace Interchange.Word

namespace Findings

/-- The identifiers in use. -/
def held (findings : Findings) : List ResourceId := findings.resources.keys

/-- All identifiers in use have been counted already. -/
def IsCounted (findings : Findings) : Prop :=
  ∀ id ∈ findings.held, ∃ n < findings.ids.next, findings.ids.nth n = id

lemma isCounted_none : none.IsCounted := nofun

/-- The next identifier is not in use. -/
lemma IsCounted.nth_notMem {findings : Findings} (h : findings.IsCounted) :
    findings.ids.nth findings.ids.next ∉ findings.held := by
  intro hmem
  obtain ⟨n, hn, hid⟩ := h _ hmem
  exact absurd (IdSource.nth_injective _ hid) (ne_of_lt hn)

end Findings

namespace Finding

variable {α β : Type} {P : α → List ResourceId → Prop} {Q : β → List ResourceId → Prop}

/-- Results are related to the identifiers that are added. -/
def Gains (finding : Finding α) (P : α → List ResourceId → Prop) : Prop :=
  ∀ before a after, finding before = some (a, after) → before.IsCounted →
    ∃ ids, after.IsCounted ∧ after.held = before.held ++ ids ∧ P a ids

/-- Nothing is added, and results have a property. -/
def Leaves (finding : Finding α) (P : α → Prop) : Prop :=
  Gains finding fun a ids => ids = [] ∧ P a

lemma gains_pure {a : α} (h : P a []) : Gains (pure a) P := by
  intro before b after hresult hcounted
  obtain ⟨rfl, rfl⟩ := Prod.mk.inj (Option.some.inj hresult)
  exact ⟨[], hcounted, (List.append_nil _).symm, h⟩

lemma Gains.bind {first : Finding α} {next : α → Finding β} (hfirst : Gains first P)
    (hnext : ∀ a ids, P a ids → Gains (next a) fun b more => Q b (ids ++ more)) :
    Gains (first >>= next) Q := by
  intro before b after hresult hcounted
  obtain ⟨a, middle, ha, hb⟩ := bind_eq_some hresult
  obtain ⟨ids, hmiddle, hheld, hproperty⟩ := hfirst before a middle ha hcounted
  obtain ⟨more, hafter, hlast, hresult⟩ := hnext a ids hproperty middle b after hb hmiddle
  exact ⟨ids ++ more, hafter, by rw [hlast, hheld, List.append_assoc], hresult⟩

lemma Leaves.bind {P : α → Prop} {first : Finding α} {next : α → Finding β}
    (hfirst : Leaves first P) (hnext : ∀ a, P a → Gains (next a) Q) : Gains (first >>= next) Q := by
  refine Gains.bind hfirst fun a ids hgains => ?_
  obtain ⟨rfl, hproperty⟩ := hgains
  exact hnext a hproperty

lemma leaves_pure {P : α → Prop} {a : α} (h : P a) : Leaves (pure a) P := gains_pure ⟨rfl, h⟩

lemma leaves_note (notice : Notice) : Leaves (note notice) fun _ => True := by
  intro before a after hresult hcounted
  obtain ⟨-, rfl⟩ := Prod.mk.inj (Option.some.inj hresult)
  exact ⟨[], hcounted, (List.append_nil _).symm, rfl, trivial⟩

lemma leaves_need {P : α → Prop} {value : Option α} (h : ∀ a, value = some a → P a) :
    Leaves (need value) P := by
  intro before a after hresult hcounted
  obtain ⟨ha, rfl⟩ := need_eq_some hresult
  exact ⟨[], hcounted, (List.append_nil _).symm, rfl, h a ha⟩

/-- A resource is added under a new identifier, and this is the result. -/
theorem gains_embed (resource : Resource) : Gains (embed resource) fun id ids => ids = [id] := by
  intro before id after hresult hcounted
  obtain ⟨rfl, rfl⟩ := Prod.mk.inj (Option.some.inj hresult)
  let id := before.ids.nth before.ids.next
  have hentries : (before.resources.insert id resource).entries =
      before.resources.entries ++ [(id, resource)] :=
    OrderedMap.entries_insert_of_notMem hcounted.nth_notMem
  have hheld : (before.resources.insert id resource).keys = before.held ++ [id] := by
    rw [OrderedMap.keys, hentries, List.map_append]
    rfl
  refine ⟨[id], fun other hother => ?_, hheld, rfl⟩
  have hmem : other ∈ (before.resources.insert id resource).keys := hother
  rw [hheld, List.mem_append] at hmem
  rcases hmem with hold | hnew
  · obtain ⟨n, hn, hid⟩ := hcounted other hold
    exact ⟨n, hn.trans (Int.lt_succ _), hid⟩
  · exact ⟨before.ids.next, Int.lt_succ _, (List.mem_singleton.1 hnew).symm⟩

/-- What is done to each of several items in turn adds what it adds to each. -/
lemma gains_mapM {step : α → Finding β} {R : List β → List ResourceId → Prop} (hnil : R [] [])
    (hcons : ∀ {b bs ids more}, Q b ids → R bs more → R (b :: bs) (ids ++ more))
    (h : ∀ a, Gains (step a) Q) (items : List α) : Gains (items.mapM step) R := by
  induction items with
  | nil => exact gains_pure hnil
  | cons item items ih =>
    rw [List.mapM_cons]
    refine (h item).bind fun b ids hb => ih.bind fun bs more hbs => gains_pure ?_
    rw [List.append_nil]
    exact hcons hb hbs

end Finding

end Interchange.Word
