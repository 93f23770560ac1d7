import Interchange.Proofs.Layout.Accounting
import Interchange.Proofs.Word.Keeping

/-!
# When a notice is made

A certain notice is made by a finding exactly when some condition holds, and nothing else that is
noted can be taken for it. Both go from the steps to the whole. That cells were merged is noted
only where a cell comes up again in its row.
-/
namespace Interchange

namespace Notice

/-- Notices of one topic or with one warning are the same. -/
def Alone (notice : Notice) (notices : List Notice) : Prop :=
  ∀ other ∈ notices, other.topic = notice.topic ∨ other.warning = notice.warning → other = notice

/-- A warning that comes from one notice only is given when that one is made. -/
lemma Alone.mem_settle_iff {notice : Notice} {notices : List Notice} (h : notice.Alone notices)
    {topic : Topic} (htopic : notice.topic = some topic) :
    notice.warning ∈ settle notices ↔ notice ∈ notices := by
  rw [Notice.mem_settle_iff]
  constructor
  · rintro (⟨other, hother, -, hwarning⟩ | ⟨_, other, hother, hwarning⟩)
    · exact h other hother (.inr hwarning) ▸ hother
    · have hmem := List.mem_of_find?_eq_some hother
      exact h other hmem (.inr hwarning) ▸ hmem
  · intro hmem
    obtain ⟨first, hfirst⟩ : ∃ first, notices.find? (·.topic = some topic) = some first := by
      rw [← Option.isSome_iff_exists, List.find?_isSome]
      exact ⟨notice, hmem, decide_eq_true htopic⟩
    have hsame : first.topic = some topic := by simpa using List.find?_some hfirst
    have hnotice := h first (List.mem_of_find?_eq_some hfirst) (.inl (hsame.trans htopic.symm))
    exact .inr ⟨topic, first, hfirst, by rw [hnotice]⟩

/-- Warnings that come from one notice only are one warning when that notice is made, and else none.
The induction is on the notices; once the topic has been seen no more of them are given. -/
lemma countP_settle {notice : Notice} {notices : List Notice} {topic : Topic}
    (htopic : notice.topic = some topic) {p : Warning → Bool} (hp : p notice.warning = true)
    (halone : ∀ other ∈ notices, other.topic = some topic ∨ p other.warning = true →
      other = notice) :
    (settle notices).countP p = if notice ∈ notices then 1 else 0 := by
  have hafter (seen : List Topic) : (settleAfter seen notices).countP p =
      if topic ∉ seen ∧ notice ∈ notices then 1 else 0 := by
    induction notices generalizing seen with
    | nil => simp [settleAfter]
    | cons other others ih =>
      obtain ⟨hfirst, hrest⟩ := List.forall_mem_cons.1 halone
      have hothers := ih hrest
      by_cases hsame : other = notice
      · subst hsame
        obtain ⟨_, warning⟩ := other
        obtain rfl := htopic
        rw [settleAfter]
        by_cases hseen : topic ∈ seen
        · simp [hseen, hothers]
        · simp [hseen, hothers, List.countP_cons_of_pos hp]
      · have hmem : notice ∈ other :: others ↔ notice ∈ others := by simp [Ne.symm hsame]
        have hother : p other.warning = false :=
          Bool.eq_false_iff.2 fun h => hsame (hfirst (.inr h))
        have hapart : other.topic ≠ some topic := fun h => hsame (hfirst (.inl h))
        simp only [hmem]
        obtain ⟨own, warning⟩ := other
        cases own with
        | none => rw [settleAfter, List.countP_cons_of_neg (by simp [hother]), hothers]
        | some own =>
          have hne : topic ≠ own := fun h => hapart (congrArg some h.symm)
          rw [settleAfter]
          split
          · exact hothers seen
          · rw [List.countP_cons_of_neg (by simp [hother]), hothers]
            simp [hne]
  rw [settle, hafter]
  simp

end Notice

namespace Word

open Markup (Element)

namespace Finding

variable {α β : Type} {notice : Notice} {condition other : Prop}

/-- The notice is made when the condition holds, and no other one that can be taken for it. -/
def Notes (notice : Notice) (finding : Finding α) (condition : Prop) : Prop :=
  ∀ before a after, finding before = some (a, after) →
    ∃ added, after.notices = before.notices ++ added ∧ notice.Alone added ∧
      (notice ∈ added ↔ condition)

lemma Notes.congr {finding : Finding α} (h : Notes notice finding condition)
    (hiff : condition ↔ other) : Notes notice finding other := by
  rwa [← propext hiff]

lemma notes_pure (a : α) : Notes notice (pure a) False := by
  intro before b after hresult
  obtain ⟨-, rfl⟩ := Prod.mk.inj (Option.some.inj hresult)
  exact ⟨[], (List.append_nil _).symm, List.forall_mem_nil _, by simp⟩

lemma notes_need (value : Option α) : Notes notice (need value) False := by
  intro before a after hresult
  obtain ⟨-, rfl⟩ := need_eq_some hresult
  exact ⟨[], (List.append_nil _).symm, List.forall_mem_nil _, by simp⟩

lemma notes_embed (resource : Resource) : Notes notice (embed resource) False := by
  intro before a after hresult
  obtain ⟨-, rfl⟩ := Prod.mk.inj (Option.some.inj hresult)
  exact ⟨[], (List.append_nil _).symm, List.forall_mem_nil _, by simp⟩

lemma notes_note (notice : Notice) : Notes notice (note notice) True := by
  intro before a after hresult
  obtain ⟨-, rfl⟩ := Prod.mk.inj (Option.some.inj hresult)
  refine ⟨[notice], rfl, ?_, by simp⟩
  exact List.forall_mem_singleton.2 fun _ => rfl

/-- A notice of another topic with another warning. -/
lemma notes_other {made : Notice} (htopic : made.topic ≠ notice.topic)
    (hwarning : made.warning ≠ notice.warning) : Notes notice (note made) False := by
  intro before a after hresult
  obtain ⟨-, rfl⟩ := Prod.mk.inj (Option.some.inj hresult)
  have hne : notice ≠ made := fun h => htopic (by rw [h])
  refine ⟨[made], rfl, ?_, by simp [hne]⟩
  exact List.forall_mem_singleton.2 fun h => (h.elim htopic hwarning).elim

lemma Notes.bind {first : Finding α} {next : α → Finding β} (hfirst : Notes notice first condition)
    (hnext : ∀ a, Results first a → Notes notice (next a) other) :
    Notes notice (first >>= next) (condition ∨ other) := by
  intro before b after hresult
  obtain ⟨a, middle, ha, hb⟩ := bind_eq_some hresult
  obtain ⟨added, hmiddle, halone, hiff⟩ := hfirst before a middle ha
  obtain ⟨more, hafter, halone', hiff'⟩ := hnext a ⟨before, middle, ha⟩ middle b after hb
  refine ⟨added ++ more, by rw [hafter, hmiddle, List.append_assoc], ?_, ?_⟩
  · exact List.forall_mem_append.2 ⟨halone, halone'⟩
  · rw [List.mem_append, hiff, hiff']

/-- Before a step that does not note it. -/
lemma Notes.bind_silent {first : Finding α} {next : α → Finding β}
    (hfirst : Notes notice first False)
    (hnext : ∀ a, Results first a → Notes notice (next a) condition) :
    Notes notice (first >>= next) condition :=
  (hfirst.bind hnext).congr (Iff.of_eq (false_or condition))

lemma notes_mapM {step : α → Finding β} {noted : α → Prop}
    (h : ∀ a, Notes notice (step a) (noted a)) (items : List α) :
    Notes notice (items.mapM step) (∃ a ∈ items, noted a) := by
  induction items with
  | nil => exact (notes_pure _).congr (by simp)
  | cons item items ih =>
    rw [List.mapM_cons]
    refine ((h item).bind fun _ _ => ih.bind fun _ _ => notes_pure _).congr ?_
    rw [or_false, List.exists_mem_cons_iff]

lemma notes_mapM_silent {step : α → Finding β} (h : ∀ a, Notes notice (step a) False)
    (items : List α) : Notes notice (items.mapM step) False :=
  (notes_mapM h items).congr (by simp)

end Finding

open Finding

/-- What is noted of a cell that comes up again. -/
def mergedCells : Notice :=
  .once (.feature "merged cells")
    (.featureLost "merged cells" "Merged table cells were split back to single cells")

/-- A feature of another name that is lost. -/
lemma notes_lost {feature message : String} (h : feature ≠ "merged cells") :
    Notes mergedCells (lost feature message) False :=
  notes_other (by simpa [mergedCells, Notice.once] using h)
    (by simp [mergedCells, Notice.once, Warning.featureLost, h])

lemma notes_simplified (feature message : String) (h : feature ≠ "merged cells") :
    Notes mergedCells (simplified feature message) False :=
  notes_other (by simpa [mergedCells, Notice.once] using h)
    (by simp [mergedCells, Notice.once, Warning.featureLost, Warning.simplified])

variable {source : Source}

namespace Inline

lemma notes_picture (run blip : Element) : Notes mergedCells (picture source run blip) False := by
  have hunresolved (id : Option String) : Notes mergedCells (note (unresolved id)) False :=
    notes_other (by simp [mergedCells, Notice.once, unresolved, Notice.always])
      (by simp [mergedCells, Notice.once, Warning.featureLost, unresolved, Notice.always])
  unfold picture
  dsimp only
  split
  · exact (hunresolved _).bind_silent fun _ _ => notes_pure _
  · split
    · exact (notes_embed _).bind_silent fun _ _ => notes_pure _
    · exact (notes_lost (by decide)).bind_silent fun _ _ => notes_pure _

lemma notes_run (element : Element) : Notes mergedCells (run source element) False := by
  have hlines (pictures : List Node) : Notes mergedCells (do
      let lines ← need (lineNodes element (Text.splitAt '\n' (runText element).toList))
      pure ((element.named (w "footnoteReference")).filterMap (footnoteRef? source) ++ pictures ++
        lines)) False := (notes_need _).bind_silent fun _ _ => notes_pure _
  unfold run
  dsimp only
  refine (notes_mapM_silent (notes_picture element) _).bind_silent fun pictures _ =>
    (notes_need _).bind_silent fun own _ => ?_
  split
  · exact (notes_lost (by decide)).bind_silent fun _ _ => hlines pictures
  · exact hlines pictures

lemma notes_runs (elements : List Element) : Notes mergedCells (runs source elements) False :=
  (notes_mapM_silent notes_run elements).bind_silent fun _ _ => notes_pure _

lemma notes_url (element : Element) : Notes mergedCells (url source element) False := by
  unfold url
  split
  · exact notes_pure _
  · split
    · exact notes_pure _
    · split
      · exact (notes_lost (by decide)).bind_silent fun _ _ => notes_pure _
      · exact notes_pure _

lemma notes_item (element : Element) : Notes mergedCells (item source element) False := by
  rw [item]
  split
  · exact notes_run element
  · split
    · exact (notes_runs _).bind_silent fun _ _ => (notes_url element).bind_silent fun _ _ =>
        notes_pure _
    · exact notes_pure _

theorem notes_ofParagraph (paragraph : Element) :
    Notes mergedCells (ofParagraph source paragraph) False :=
  (notes_mapM_silent notes_item _).bind_silent fun _ _ => notes_pure _

end Inline

namespace Body

theorem notes_paragraph (element : Element) : Notes mergedCells (paragraph source element) False := by
  have hlast (entry : Entry) : Notes mergedCells
      (pure (if endsPage element then [entry, .pageBreak] else [entry]) : Finding _) False :=
    notes_pure _
  unfold paragraph
  refine (Inline.notes_ofParagraph element).bind_silent fun inlines _ =>
    (notes_need _).bind_silent fun styleName _ => ?_
  dsimp only
  split
  · split
    · exact (notes_simplified _ _ (by decide)).bind_silent fun _ _ => hlast _
    · exact hlast _
  · exact (notes_need _).bind_silent fun _ _ => hlast _

lemma notes_cell (header : Bool) (element : Element) :
    Notes mergedCells (cell source header element) False :=
  (notes_mapM_silent Inline.notes_ofParagraph _).bind_silent fun _ _ => notes_pure _

/-- It is noted that cells were merged when the place of one comes up again. -/
lemma notes_cells (header : Bool) (seen : List GridPlace) (placed : List PlacedCell) :
    Notes mergedCells (cells source header seen placed)
      ¬((placed.map PlacedCell.place).Nodup ∧ ∀ cell ∈ placed, cell.place ∉ seen) := by
  induction placed generalizing seen with
  | nil => exact (notes_pure _).congr (by simp)
  | cons first others ih =>
    rw [cells]
    split
    · next hseen =>
      exact ((notes_note mergedCells).bind fun _ _ => ih seen).congr (by simp [hseen])
    · next hnew =>
      refine ((notes_cell header _).bind_silent fun _ _ => (ih _).bind fun _ _ =>
        notes_pure _).congr ?_
      have hfirst : (∀ cell ∈ others, cell.place ∉ first.place :: seen) ↔
          first.place ∉ others.map PlacedCell.place ∧ ∀ cell ∈ others, cell.place ∉ seen := by
        simp only [List.mem_cons, not_or, List.mem_map, not_exists, not_and]
        exact forall₂_and
      rw [or_false, hfirst, List.map_cons, List.nodup_cons, List.forall_mem_cons]
      tauto

lemma notes_rows (above others : List GridRow) : Notes mergedCells (rows source above others)
    (∃ up ∈ upwards above others, Repeats up) := by
  induction others generalizing above with
  | nil => exact (notes_pure _).congr (by simp [upwards])
  | cons row others ih =>
    rw [rows, upwards, List.exists_mem_cons_iff]
    refine (notes_need _).bind_silent fun placed hplaced => ?_
    obtain ⟨before, after, hplaced⟩ := hplaced
    have hsome : row.placedCells? above = some placed := (need_eq_some hplaced).1
    have hrow : Notes mergedCells (cells source above.isEmpty [] placed) (Repeats (row :: above)) := by
      refine (notes_cells _ [] placed).congr ?_
      simp [Repeats, placedIn?, hsome]
    refine (hrow.bind fun _ _ => (ih _).bind fun _ _ => notes_pure _).congr ?_
    rw [or_false]

lemma notes_table (element : Element) : Notes mergedCells (table source element)
    (∃ up ∈ upwards [] (gridOf element), Repeats up) :=
  ((notes_rows [] _).bind fun _ _ => notes_pure _).congr (Iff.of_eq (or_false _))

lemma notes_entries (element : Element) : Notes mergedCells (entries source element)
    (element.name = w "tbl" ∧ ∃ up ∈ upwards [] (gridOf element), Repeats up) := by
  rw [entries]
  split
  · next hname =>
    refine ((notes_table element).bind fun _ _ => notes_pure _).congr ?_
    rw [or_false, and_iff_right hname]
  · next hname =>
    have hnone : False ↔
        element.name = w "tbl" ∧ ∃ up ∈ upwards [] (gridOf element), Repeats up :=
      (iff_false_intro fun h => hname h.1).symm
    split
    · exact (notes_paragraph element).congr hnone
    · exact (notes_pure _).congr hnone

theorem notes_blocks (body : Element) : Notes mergedCells (blocks source body)
    (∃ table ∈ body.named (w "tbl"), ∃ up ∈ upwards [] (gridOf table), Repeats up) := by
  refine ((notes_mapM notes_entries _).bind fun _ _ => notes_pure _).congr ?_
  rw [or_false]
  simp only [Element.named, List.mem_filter, decide_eq_true_eq, and_assoc]

end Body

variable {package : Package} {options : ReadOptions}

lemma notes_forM_note (notices : List Notice) (halone : mergedCells.Alone notices)
    (hnone : mergedCells ∉ notices) : Notes mergedCells (notices.forM note) False :=
  fun _ _ _ hresult => ⟨notices, notices_of_forM_note hresult, halone, iff_false_intro hnone⟩

lemma notes_footnotes (footnotes : List Footnote) :
    Notes mergedCells ((Footnote.notices footnotes).forM note) False := by
  refine notes_forM_note _ ?_ ?_ <;> rw [Footnote.notices] <;> split
  · exact List.forall_mem_nil _
  · refine List.forall_mem_singleton.2 fun h => ?_
    rcases h with h | h <;> cases h
  · exact List.not_mem_nil
  · rw [List.mem_singleton]
    decide

lemma notes_passOver (sections : List Element) :
    Notes mergedCells (passOver package sections) False := by
  have hheaders : Notes mergedCells (do
      if ← need (Section.showsAny? package sections) then
        lost "headers and footers" "Page headers and footers are not carried over") False := by
    refine (notes_need _).bind_silent fun shown _ => ?_
    split
    · exact notes_lost (by decide)
    · exact notes_pure _
  unfold passOver
  dsimp only
  split
  · exact (notes_lost (by decide)).bind_silent fun _ _ => hheaders
  · exact hheaders

/-- It is reported that cells were merged when the place of one comes up again in a row of a table
directly in the body. -/
theorem mem_warnings_of_read {outcome : Outcome Document} (h : read package options = .ok outcome) :
    ∃ root body, package.main.root? = some root ∧ root.first? (w "body") = some body ∧
      (mergedCells.warning ∈ outcome.warnings ↔
        ∃ table ∈ body.named (w "tbl"), ∃ up ∈ upwards [] (gridOf table), Repeats up) := by
  obtain ⟨root, footnotes, nodes, findings, hroot, hblocks, -, hwarnings⟩ := blocks_of_read h
  obtain ⟨body, -, -, hbody, -, -⟩ := body_of_blocks hblocks
  have hnotes : Notes mergedCells (blocks package root footnotes options.embeds)
      (∃ table ∈ body.named (w "tbl"), ∃ up ∈ upwards [] (gridOf table), Repeats up) := by
    refine (notes_footnotes footnotes).bind_silent fun _ _ =>
      (notes_passOver _).bind_silent fun _ _ => (notes_need _).bind_silent fun found hfound => ?_
    obtain ⟨before, after, hfound⟩ := hfound
    obtain rfl : body = found := Option.some.inj (hbody.symm.trans (need_eq_some hfound).1)
    exact ((Body.notes_blocks body).bind fun _ _ => notes_pure _).congr (Iff.of_eq (or_false _))
  obtain ⟨added, hadded, halone, hiff⟩ := hnotes _ _ _ hblocks
  obtain rfl : findings.notices = added := hadded
  refine ⟨root, body, hroot, hbody, ?_⟩
  rw [hwarnings, halone.mem_settle_iff rfl]
  exact hiff

end Word

end Interchange
