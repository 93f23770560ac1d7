import Interchange.Document.Construct
import Interchange.Proofs.Layout.Stacking

/-!
# What is reported of nodes without a handler

A node that a layout has no handler for is written as its text, or dropped when it has none, and
either is to be reported for its kind. The warning of a kind is given once, and its wording is that
of the first such node: a kind that is written in one place and dropped in another has one report.
-/
namespace Interchange

namespace Notice

lemma mem_settleAfter_iff {seen : List Topic} {notices : List Notice} {warning : Warning} :
    warning ∈ settleAfter seen notices ↔
      (∃ notice ∈ notices, notice.topic = none ∧ notice.warning = warning) ∨
        ∃ topic ∉ seen, ∃ notice, notices.find? (·.topic = some topic) = some notice ∧
          notice.warning = warning := by
  induction notices generalizing seen with
  | nil => simp [settleAfter]
  | cons notice notices ih =>
    obtain ⟨topic, given⟩ := notice
    cases topic with
    | none => simp [settleAfter, ih, eq_comm, or_assoc]
    | some topic =>
      -- A topic other than that of the first notice is looked for among the others.
      have hothers (other : Topic) (hother : other ≠ topic) :
          (⟨some topic, given⟩ :: notices).find? (fun n : Notice => n.topic = some other) =
            notices.find? (·.topic = some other) := by
        rw [List.find?_cons_of_neg]
        simpa using Ne.symm hother
      have hfirst : (⟨some topic, given⟩ :: notices).find?
          (fun n : Notice => n.topic = some topic) = some ⟨some topic, given⟩ := by
        simp
      have huntitled : (∃ notice ∈ ⟨some topic, given⟩ :: notices,
          notice.topic = none ∧ notice.warning = warning) ↔
            ∃ notice ∈ notices, notice.topic = none ∧ notice.warning = warning := by
        simp
      rw [settleAfter, huntitled]
      by_cases hseen : topic ∈ seen
      · rw [if_pos hseen, ih]
        refine or_congr_right (exists_congr fun other => and_congr_right fun hother => ?_)
        rw [hothers other (ne_of_mem_of_not_mem hseen hother).symm]
      · rw [if_neg hseen, List.mem_cons, ih]
        constructor
        · rintro (rfl | huntitled | ⟨other, hother, hfound⟩)
          · exact .inr ⟨topic, hseen, _, hfirst, rfl⟩
          · exact .inl huntitled
          · rw [List.mem_cons, not_or] at hother
            exact .inr ⟨other, hother.2, by rwa [hothers other hother.1]⟩
        · rintro (huntitled | ⟨other, hother, hfound⟩)
          · exact .inr (.inl huntitled)
          · by_cases hsame : other = topic
            · obtain ⟨notice, hnotice, hwarning⟩ := hfound
              rw [hsame, hfirst, Option.some_inj] at hnotice
              exact .inl (by rw [← hwarning, ← hnotice])
            · rw [hothers other hsame] at hfound
              exact .inr (.inr ⟨other, by simp [hsame, hother], hfound⟩)

/-- A warning is given when its notice has no topic or is the first with its topic. -/
theorem mem_settle_iff {notices : List Notice} {warning : Warning} :
    warning ∈ settle notices ↔
      (∃ notice ∈ notices, notice.topic = none ∧ notice.warning = warning) ∨
        ∃ topic notice, notices.find? (·.topic = some topic) = some notice ∧
          notice.warning = warning := by
  simp [settle, mem_settleAfter_iff]

end Notice

namespace Layout

/-- Whether there is no handler for a node where it stands: its kind is not known, it is an item
outside of a list, or it is a formula without a source. -/
def isUnhandled (place : Bool × Node) : Bool :=
  match roleOf place.2.kind with
  | .unknown => true
  | .listItem => !place.1
  | .displayMath | .inlineMath => (Bag.text? place.2.props Key.mathSource).isNone
  | _ => false

/-- The nodes without a handler that a layout comes to, in order. -/
def unhandled (root : Node) : List Node :=
  ((reached false root).filter isUnhandled).map Prod.snd

/-- What becomes of a node without a handler: it is dropped when no text stands for it. -/
def fallbackLoss (node : Node) : Loss :=
  if node.plainText = "" then .featureLost node.kind.name else .simplified node.kind.name

/-- What becomes of a node is among the warnings. -/
def Reported (warnings : List Warning) (node : Node) : Prop :=
  ∃ warning ∈ warnings, warning.loss = fallbackLoss node

instance (warnings : List Warning) (node : Node) : Decidable (Reported warnings node) :=
  inferInstanceAs (Decidable (∃ warning ∈ warnings, warning.loss = fallbackLoss node))

lemma loss_ofUnknown (node : Node) : (Notice.ofUnknown node).warning.loss = fallbackLoss node := by
  unfold Notice.ofUnknown fallbackLoss
  dsimp only [Notice.once]
  split_ifs <;> rfl

lemma fallbackLoss_eq_simplified_iff {node : Node} {name : String} :
    fallbackLoss node = .simplified name ↔ node.plainText ≠ "" ∧ node.kind.name = name := by
  unfold fallbackLoss
  split_ifs with h <;> simp [h]

lemma fallbackLoss_eq_iff {node other : Node} : fallbackLoss node = fallbackLoss other ↔
    node.kind = other.kind ∧ (node.plainText = "" ↔ other.plainText = "") := by
  have hkind : node.kind = other.kind ↔ node.kind.name = other.kind.name :=
    ⟨congrArg Kind.name, fun h => by
      obtain ⟨⟨name, _⟩, _, _, _⟩ := node
      obtain ⟨⟨name', _⟩, _, _, _⟩ := other
      cases h
      rfl⟩
  rw [hkind]
  unfold fallbackLoss
  split_ifs with h h' h' <;> simp [h, h']

def isFallback (notice : Notice) : Bool :=
  match notice.topic with
  | some (.fallback _) => true
  | _ => false

/-- The features that some notices are about. -/
def features (notices : List Notice) : List String :=
  notices.filterMap fun notice =>
    match notice.topic with
    | some (.feature name) => some name
    | _ => none

/-- A notice about a feature says that it is simplified. -/
def IsFeature (notice : Notice) : Prop :=
  ∃ name, notice.topic = some (.feature name) ∧ notice.warning.loss = .simplified name

variable {medium : Medium}

/-- At a node without a handler this is noted and nothing else; at any other it is not. -/
lemma noticesAt_cases (medium : Medium) (place : Bool × Node) :
    (isUnhandled place = true ∧ noticesAt medium place = [.ofUnknown place.2]) ∨
      (isUnhandled place = false ∧ ∀ notice ∈ noticesAt medium place, IsFeature notice) := by
  have hfeature (name message : String) (severity : Severity) :
      ∀ notice ∈ [feature name message severity], IsFeature notice := by
    rintro notice hnotice
    rw [List.mem_singleton.1 hnotice]
    exact ⟨name, rfl, rfl⟩
  obtain ⟨inList, node⟩ := place
  unfold noticesAt ownNotices isUnhandled
  dsimp only
  cases roleOf node.kind with
  | heading =>
    refine .inr ⟨rfl, ?_⟩
    dsimp only
    split
    · exact hfeature _ _ _
    · exact List.forall_mem_nil _
  | style =>
    refine .inr ⟨rfl, ?_⟩
    dsimp only
    split
    · exact List.forall_mem_nil _
    · exact hfeature _ _ _
  | table => exact .inr ⟨rfl, hfeature _ _ _⟩
  | displayMath | inlineMath =>
    cases Bag.text? node.props Key.mathSource with
    | none => exact .inl ⟨rfl, rfl⟩
    | some source => exact .inr ⟨rfl, hfeature _ _ _⟩
  | listItem =>
    cases inList with
    | false => exact .inl ⟨rfl, rfl⟩
    | true => exact .inr ⟨rfl, List.forall_mem_nil _⟩
  | unknown => exact .inl ⟨rfl, rfl⟩
  | _ => exact .inr ⟨rfl, List.forall_mem_nil _⟩

lemma isFallback_of_isFeature {notice : Notice} (h : IsFeature notice) :
    isFallback notice = false := by
  obtain ⟨name, htopic, -⟩ := h
  rw [isFallback, htopic]

lemma isFeature_of_not_isFallback {root : Node} {notice : Notice}
    (h : notice ∈ losses medium false root) (hfallback : isFallback notice = false) :
    IsFeature notice := by
  rw [losses, List.mem_flatMap] at h
  obtain ⟨place, -, hnotice⟩ := h
  rcases noticesAt_cases medium place with ⟨-, hown⟩ | ⟨-, hfeatures⟩
  · rw [hown, List.mem_singleton] at hnotice
    rw [hnotice] at hfallback
    cases hfallback
  · exact hfeatures notice hnotice

/-- The nodes without a handler are noted in their order. -/
lemma filter_losses (medium : Medium) (root : Node) :
    (losses medium false root).filter isFallback = (unhandled root).map .ofUnknown := by
  rw [losses, unhandled, List.map_map]
  induction reached false root with
  | nil => rfl
  | cons place places ih =>
    rw [List.flatMap_cons, List.filter_append, ih]
    rcases noticesAt_cases medium place with ⟨hplace, hown⟩ | ⟨hplace, hfeatures⟩
    · rw [hown, List.filter_cons_of_pos hplace]
      rfl
    · have hnone : (noticesAt medium place).filter isFallback = [] :=
        List.filter_eq_nil_iff.2 fun notice hnotice => by
          simp [isFallback_of_isFeature (hfeatures notice hnotice)]
      rw [hnone, List.filter_cons_of_neg (by simp [hplace])]
      rfl

/-- The first notice about a kind without a handler is that of its first node. -/
lemma find?_losses_fallback (root : Node) (kind : Kind) :
    (losses medium false root).find? (·.topic = some (.fallback kind.name)) =
      ((unhandled root).find? (·.kind = kind)).map .ofUnknown := by
  have hfiltered : (losses medium false root).find? (·.topic = some (.fallback kind.name)) =
      ((losses medium false root).filter isFallback).find?
        (·.topic = some (.fallback kind.name)) := by
    rw [List.find?_filter]
    refine congrArg (fun p => List.find? p _) (funext fun notice => ?_)
    obtain ⟨topic, warning⟩ := notice
    rcases topic with _ | (_ | _ | _ | _) <;> simp [isFallback]
  have hkind (node : Node) : node.kind.name = kind.name ↔ node.kind = kind := by
    obtain ⟨⟨name, _⟩, _, _, _⟩ := node
    obtain ⟨name', _⟩ := kind
    exact ⟨fun h => by cases h; rfl, fun h => by cases h; rfl⟩
  rw [hfiltered, filter_losses, List.find?_map]
  refine congrArg (fun p => (List.find? p _).map _) (funext fun node => ?_)
  simp [Notice.ofUnknown, Notice.once, hkind]

lemma mem_features_iff {notices : List Notice} {name : String} :
    name ∈ features notices ↔ ∃ notice ∈ notices, notice.topic = some (.feature name) := by
  unfold features
  rw [List.mem_filterMap]
  refine exists_congr fun notice => and_congr_right fun _ => ?_
  obtain ⟨topic, warning⟩ := notice
  rcases topic with _ | (_ | _ | _ | _) <;> simp

/-- The warnings say what became of the first node of each kind without a handler, and which
features are simplified. -/
lemma exists_mem_settle_iff {root : Node} {loss : Loss} :
    (∃ warning ∈ Notice.settle (losses medium false root), warning.loss = loss) ↔
      (∃ first, (unhandled root).find? (·.kind = first.kind) = some first ∧
        fallbackLoss first = loss) ∨
      ∃ name ∈ features (losses medium false root), .simplified name = loss := by
  constructor
  · rintro ⟨warning, hwarning, rfl⟩
    rcases Notice.mem_settle_iff.1 hwarning with ⟨notice, hmem, htopic, -⟩ |
      ⟨topic, notice, hfound, rfl⟩
    · obtain ⟨name, hname, -⟩ := isFeature_of_not_isFallback hmem (by rw [isFallback, htopic])
      rw [htopic] at hname
      cases hname
    · have hmem := List.mem_of_find?_eq_some hfound
      by_cases hfallback : isFallback notice = true
      · have hunknown : notice ∈ (unhandled root).map .ofUnknown := by
          rw [← filter_losses medium]
          exact List.mem_filter.2 ⟨hmem, hfallback⟩
        obtain ⟨node, -, rfl⟩ := List.mem_map.1 hunknown
        have htopic : (Notice.ofUnknown node).topic = some topic := by
          simpa using List.find?_some hfound
        rw [← htopic] at hfound
        obtain ⟨first, hfirst, hsame⟩ :=
          Option.map_eq_some_iff.1 ((find?_losses_fallback root node.kind).symm.trans hfound)
        have hkind : first.kind = node.kind := by simpa using List.find?_some hfirst
        exact .inl ⟨first, by rwa [hkind], by rw [← loss_ofUnknown, hsame]⟩
      · obtain ⟨name, htopic, hname⟩ :=
          isFeature_of_not_isFallback hmem (Bool.eq_false_iff.2 hfallback)
        exact .inr ⟨name, mem_features_iff.2 ⟨notice, hmem, htopic⟩, hname.symm⟩
  · rintro (⟨first, hfirst, rfl⟩ | ⟨name, hname, rfl⟩)
    · refine ⟨(Notice.ofUnknown first).warning, ?_, loss_ofUnknown first⟩
      refine Notice.mem_settle_iff.2 (.inr ⟨.fallback first.kind.name, .ofUnknown first, ?_, rfl⟩)
      rw [find?_losses_fallback, hfirst]
      rfl
    · obtain ⟨notice, hmem, htopic⟩ := mem_features_iff.1 hname
      obtain ⟨first, hfirst⟩ : ∃ first, (losses medium false root).find?
          (·.topic = some (.feature name)) = some first := by
        rw [← Option.isSome_iff_exists, List.find?_isSome]
        exact ⟨notice, hmem, by simp [htopic]⟩
      have hfeature : first.topic = some (.feature name) := by simpa using List.find?_some hfirst
      obtain ⟨own, hown, hloss⟩ := isFeature_of_not_isFallback
        (List.mem_of_find?_eq_some hfirst) (by rw [isFallback, hfeature])
      rw [hfeature] at hown
      cases hown
      exact ⟨first.warning, Notice.mem_settle_iff.2 (.inr ⟨_, first, hfirst, rfl⟩), hloss⟩

/-- Writing succeeds, and what becomes of a node without a handler is reported exactly when the same
became of the first node of its kind, or when it is written and its kind has the name of a feature
that is reported as simplified. -/
theorem reported_write_iff (medium : Medium) {doc : Document} {options : WriteOptions}
    (hoptions : Separates options doc.content) :
    ∃ outcome, write medium doc options = .ok outcome ∧
      ∀ node ∈ unhandled doc.content, Reported outcome.warnings node ↔
        (∃ first, (unhandled doc.content).find? (·.kind = node.kind) = some first ∧
          (first.plainText = "" ↔ node.plainText = "")) ∨
        node.plainText ≠ "" ∧ node.kind.name ∈ features (losses medium false doc.content) := by
  obtain ⟨text, htext⟩ := hoptions
  refine ⟨_, write_eq_output medium htext, fun node _ =>
    exists_mem_settle_iff.trans (or_congr ?_ ?_)⟩
  · refine exists_congr fun first => ?_
    rw [fallbackLoss_eq_iff]
    constructor
    · rintro ⟨hfirst, hkind, htext⟩
      exact ⟨by rwa [← hkind], htext⟩
    · rintro ⟨hfirst, htext⟩
      have hkind : first.kind = node.kind := by simpa using List.find?_some hfirst
      exact ⟨by rwa [hkind], hkind, htext⟩
  · constructor
    · rintro ⟨name, hname, hloss⟩
      obtain ⟨htext, rfl⟩ := fallbackLoss_eq_simplified_iff.1 hloss.symm
      exact ⟨htext, hname⟩
    · rintro ⟨htext, hname⟩
      exact ⟨_, hname, (fallbackLoss_eq_simplified_iff.2 ⟨htext, rfl⟩).symm⟩

/-- A note that is written before one of its kind that is dropped. -/
def writtenThenDropped : Document :=
  .ofContent (.branch .document [.branch ⟨"note", by decide⟩ [.text "a"], .leaf ⟨"note", by decide⟩])

theorem reported_write_iff_notes :
    let options : WriteOptions :=
      ⟨.null, .null, .ofList [(separatorName, .text "; ")]⟩
    let note := Node.branch ⟨"note", by decide⟩
    let doc := Document.ofContent (.document [
      .table [.tableRow [.tableCell false [note []], .tableCell false [note [.text "a"]]]], note []])
    Separates options doc.content ∧
      ∃ outcome, write .plain doc options = .ok outcome ∧
        ∀ node ∈ unhandled doc.content, Reported outcome.warnings node ↔
          (∃ first, (unhandled doc.content).find? (·.kind = node.kind) = some first ∧
            (first.plainText = "" ↔ node.plainText = "")) ∨
          node.plainText ≠ "" ∧ node.kind.name ∈ features (losses .plain false doc.content) := by
  intro options note doc
  have hoptions : Separates options doc.content := ⟨"; ", rfl⟩
  exact ⟨hoptions, reported_write_iff .plain hoptions⟩

/-- The report of a kind that was written first leaves out that a later node of it is dropped. -/
theorem not_reported_write_dropped :
    ¬∀ outcome, write .plain writtenThenDropped .standard = .ok outcome →
      ∀ node ∈ unhandled writtenThenDropped.content, Reported outcome.warnings node := by
  intro h
  have hreported : ∀ node ∈ unhandled writtenThenDropped.content, Reported
      (Notice.settle (losses .plain false writtenThenDropped.content)) node := h _ rfl
  revert hreported
  decide +kernel

end Layout

end Interchange
