import Interchange.Proofs.Transform.Keeping

/-!
# Merged text is merged for good

One pass joins every run of alike pieces of text, so no two of them stand side by side afterwards
and a second pass finds nothing to do. Each node of the result arises from nodes in a row: what it
says is what they say, and it has a span only when theirs follow one another.
-/
namespace Interchange

/-- From the start of the first span to the stop of the last one, none of which begins before the
one in front of it ends. -/
structure Span.Covers (span : Span) (spans : List Span) : Prop where
  start : spans.head?.map Span.start = some span.start
  stop : spans.getLast?.map Span.stop = some span.stop
  apart : spans.IsChain fun left right => left.stop ≤ right.start

namespace Span

lemma eq_iff_bounds {s t : Span} : s = t ↔ s.start = t.start ∧ s.stop = t.stop := by
  cases s
  cases t
  simp

lemma covers_singleton_iff {s t : Span} : s.Covers [t] ↔ s = t := by
  rw [eq_iff_bounds]
  constructor
  · rintro ⟨hstart, hstop, -⟩
    exact ⟨(Option.some.inj hstart).symm, (Option.some.inj hstop).symm⟩
  · rintro ⟨hstart, hstop⟩
    exact ⟨congrArg some hstart.symm, congrArg some hstop.symm, .singleton t⟩

lemma through_eq_some_iff {left right : Option Span} {span : Span} :
    through left right = some span ↔ ∃ s t, left = some s ∧ right = some t ∧
      s.stop ≤ t.start ∧ span.start = s.start ∧ span.stop = t.stop := by
  cases left with
  | none => simp [through]
  | some s =>
    cases right with
    | none => simp [through]
    | some t =>
      by_cases h : s.stop ≤ t.start
      · have hbounds (joined : Span) : joined = span ↔
            span.start = joined.start ∧ span.stop = joined.stop := eq_comm.trans eq_iff_bounds
        simp [through, h, hbounds]
      · simp [through, h]

/-- Two spans that follow one another may be replaced by the one from the first through the
second. -/
lemma covers_cons_cons_iff {span s t joined : Span} {spans : List Span}
    (hstart : joined.start = s.start) (hstop : joined.stop = t.stop) (hle : s.stop ≤ t.start) :
    span.Covers (s :: t :: spans) ↔ span.Covers (joined :: spans) := by
  have hlast : (s :: t :: spans).getLast?.map stop = (joined :: spans).getLast?.map stop := by
    cases spans with
    | nil => simp [hstop]
    | cons next spans => simp
  have hchain : (s :: t :: spans).IsChain (fun left right => left.stop ≤ right.start) ↔
      (joined :: spans).IsChain (fun left right => left.stop ≤ right.start) := by
    rw [List.isChain_cons_cons, and_iff_right hle, List.isChain_cons, List.isChain_cons, hstop]
  constructor
  · rintro ⟨hfirst, hend, hapart⟩
    exact ⟨by simpa [hstart] using hfirst, hlast ▸ hend, hchain.1 hapart⟩
  · rintro ⟨hfirst, hend, hapart⟩
    exact ⟨by simpa [hstart] using hfirst, hlast.trans hend, hchain.2 hapart⟩

/-- Spans put together one after the other give a span just if there are all of them and each stands
behind the one before it. -/
theorem foldl_through_eq_some_iff {first : Option Span} {rest : List (Option Span)} {span : Span} :
    rest.foldl through first = some span ↔
      ∃ spans, first :: rest = spans.map some ∧ span.Covers spans := by
  induction rest generalizing first with
  | nil =>
    constructor
    · rintro rfl
      exact ⟨[span], rfl, covers_singleton_iff.2 rfl⟩
    · rintro ⟨spans, hspans, hcovers⟩
      obtain ⟨s, others, rfl, rfl, hnone⟩ := List.map_eq_cons_iff.1 hspans.symm
      obtain rfl := List.map_eq_nil_iff.1 hnone
      rw [List.foldl_nil, covers_singleton_iff.1 hcovers]
  | cons next rest ih =>
    rw [List.foldl_cons, ih]
    constructor
    · rintro ⟨spans, hspans, hcovers⟩
      obtain ⟨joined, spans, rfl, hjoined, rfl⟩ := List.map_eq_cons_iff.1 hspans.symm
      obtain ⟨s, t, rfl, rfl, hle, hstart, hstop⟩ := through_eq_some_iff.1 hjoined.symm
      exact ⟨s :: t :: spans, rfl, (covers_cons_cons_iff hstart hstop hle).2 hcovers⟩
    · rintro ⟨spans, hspans, hcovers⟩
      obtain ⟨s, others, rfl, rfl, hothers⟩ := List.map_eq_cons_iff.1 hspans.symm
      obtain ⟨t, spans, rfl, rfl, rfl⟩ := List.map_eq_cons_iff.1 hothers
      have hle : s.stop ≤ t.start := (List.isChain_cons_cons.1 hcovers.apart).1
      let joined : Span := ⟨s.start, t.stop, s.ordered.trans (hle.trans t.ordered)⟩
      have hstart : joined.start = s.start := rfl
      have hstop : joined.stop = t.stop := rfl
      have hjoined : through (some s) (some t) = some joined :=
        through_eq_some_iff.2 ⟨s, t, rfl, rfl, hle, hstart, hstop⟩
      exact ⟨joined :: spans, by rw [hjoined]; rfl,
        (covers_cons_cons_iff hstart hstop hle).1 hcovers⟩

end Span

namespace Node

/-- Two pieces of text with the same properties but for their content. -/
def Alike (left right : Node) : Prop :=
  left.kind = .text ∧ right.kind = .text ∧
    Bag.same (left.props.erase Key.content) (right.props.erase Key.content) = true

lemma canMerge_iff {left right : Node} : canMerge left right = true ↔ Alike left right := by
  simp only [canMerge, Bool.and_eq_true, beq_iff_eq, Alike, and_assoc]

/-- The second node has the frame of the first one: its kind, its parts and all that its properties
say but for the content. -/
structure SameFrame (node other : Node) : Prop where
  kind : other.kind = node.kind
  others : other.props.erase Key.content = node.props.erase Key.content
  children : other.children = node.children

variable {first node left right other : Node} {nodes rest : List Node}

namespace SameFrame

lemma refl (node : Node) : SameFrame node node := ⟨rfl, rfl, rfl⟩

lemma trans {third : Node} (h : SameFrame node other) (h' : SameFrame other third) :
    SameFrame node third :=
  ⟨h'.kind.trans h.kind, h'.others.trans h.others, h'.children.trans h.children⟩

/-- What is alike to a piece is alike to all that have its frame. -/
lemma alike_left_iff (h : SameFrame node other) : Alike other right ↔ Alike node right := by
  rw [Alike, Alike, h.kind, h.others]

lemma alike_right_iff (h : SameFrame node other) : Alike left other ↔ Alike left node := by
  rw [Alike, Alike, h.kind, h.others]

end SameFrame

lemma sameFrame_merge (left right : Node) : SameFrame left (merge left right) :=
  ⟨rfl, OrderedMap.erase_insert left.props Key.content _, rfl⟩

lemma sameFrame_foldl_merge (first : Node) (rest : List Node) :
    SameFrame first (rest.foldl merge first) := by
  induction rest generalizing first with
  | nil => exact .refl first
  | cons node rest ih => exact (sameFrame_merge first node).trans (ih (merge first node))

/-- The first of some pieces that are alike to it, with the others merged into it in turn. -/
inductive MergedFrom : Node → List Node → Prop
  | intro {first : Node} {rest : List Node} (alike : ∀ part ∈ rest, Alike first part) :
    MergedFrom (rest.foldl merge first) (first :: rest)

/-- The induction is on the nodes that are still to come: those before them, which are alike, have
been merged into the one in front. -/
lemma exists_groups_mergeRun (first : Node) (merged : List Node)
    (halike : ∀ part ∈ merged, Alike first part) :
    ∃ groups : List (List Node), groups.flatten = first :: merged ++ nodes ∧
      List.Forall₂ MergedFrom (mergeRun (merged.foldl merge first) nodes) groups := by
  induction nodes generalizing first merged with
  | nil =>
    refine ⟨[first :: merged], by simp, ?_⟩
    rw [mergeRun]
    exact .cons (.intro halike) .nil
  | cons node nodes ih =>
    have hframe := sameFrame_foldl_merge first merged
    rw [mergeRun]
    split
    · next hmerge =>
      have hnode : Alike first node := hframe.alike_left_iff.1 (canMerge_iff.1 hmerge)
      have hall : ∀ part ∈ merged ++ [node], Alike first part := by
        rw [List.forall_mem_append, List.forall_mem_singleton]
        exact ⟨halike, hnode⟩
      obtain ⟨groups, hflatten, heach⟩ := ih first (merged ++ [node]) hall
      rw [List.foldl_append] at heach
      exact ⟨groups, by simpa using hflatten, heach⟩
    · obtain ⟨groups, hflatten, heach⟩ := ih node [] (List.forall_mem_nil _)
      exact ⟨(first :: merged) :: groups, by rw [List.flatten_cons, hflatten]; rfl,
        .cons (.intro halike) heach⟩

/-- Merging cuts a sequence of nodes into groups of alike ones, and puts each group together. -/
theorem exists_groups_mergeAdjacent (nodes : List Node) :
    ∃ groups : List (List Node), groups.flatten = nodes ∧
      List.Forall₂ MergedFrom (mergeAdjacent nodes) groups := by
  cases nodes with
  | nil => exact ⟨[], rfl, .nil⟩
  | cons node nodes => exact exists_groups_mergeRun node [] (List.forall_mem_nil _)

/-- Each node of a merged sequence has the frame of one that was there before. -/
lemma exists_sameFrame_of_mem_mergeRun {last out : Node} (h : out ∈ mergeRun last nodes) :
    ∃ node ∈ last :: nodes, SameFrame node out := by
  induction nodes generalizing last with
  | nil =>
    rw [mergeRun, List.mem_singleton] at h
    exact ⟨last, List.mem_singleton_self last, h ▸ .refl last⟩
  | cons node nodes ih =>
    rw [mergeRun] at h
    split at h
    · obtain ⟨part, hpart, hframe⟩ := ih h
      rcases List.mem_cons.1 hpart with rfl | hrest
      · exact ⟨last, List.mem_cons_self, (sameFrame_merge last node).trans hframe⟩
      · exact ⟨part, List.mem_cons_of_mem _ (List.mem_cons_of_mem _ hrest), hframe⟩
    · rcases List.mem_cons.1 h with rfl | hrest
      · exact ⟨out, List.mem_cons_self, .refl out⟩
      · obtain ⟨part, hpart, hframe⟩ := ih hrest
        exact ⟨part, List.mem_cons_of_mem _ hpart, hframe⟩

lemma exists_sameFrame_of_mem_mergeAdjacent {out : Node} (h : out ∈ mergeAdjacent nodes) :
    ∃ node ∈ nodes, SameFrame node out := by
  cases nodes with
  | nil => cases h
  | cons node nodes => exact exists_sameFrame_of_mem_mergeRun h

/-- A merged sequence begins with a node of the frame that its first node had. -/
lemma sameFrame_of_mem_head?_mergeRun {last head : Node}
    (h : head ∈ (mergeRun last nodes).head?) : SameFrame last head := by
  induction nodes generalizing last with
  | nil =>
    obtain rfl : last = head := Option.some.inj h
    exact .refl last
  | cons node nodes ih =>
    rw [mergeRun] at h
    split at h
    · exact (sameFrame_merge last node).trans (ih h)
    · obtain rfl : last = head := Option.some.inj h
      exact .refl last

/-- No two neighbours are alike. -/
def NoneAlike (nodes : List Node) : Prop := nodes.IsChain fun left right => ¬ Alike left right

lemma noneAlike_mergeRun (last : Node) (nodes : List Node) : NoneAlike (mergeRun last nodes) := by
  induction nodes generalizing last with
  | nil => exact .singleton last
  | cons node nodes ih =>
    rw [mergeRun]
    split
    · exact ih (merge last node)
    · next hmerge =>
      refine List.isChain_cons.2 ⟨fun head hhead => ?_, ih node⟩
      rw [(sameFrame_of_mem_head?_mergeRun hhead).alike_right_iff]
      exact fun halike => hmerge (canMerge_iff.2 halike)

theorem noneAlike_mergeAdjacent (nodes : List Node) : NoneAlike (mergeAdjacent nodes) := by
  cases nodes with
  | nil => exact .nil
  | cons node nodes => exact noneAlike_mergeRun node nodes

theorem mergeAdjacent_of_noneAlike (h : NoneAlike nodes) : mergeAdjacent nodes = nodes := by
  cases nodes with
  | nil => rfl
  | cons last nodes =>
    rw [mergeAdjacent]
    induction nodes generalizing last with
    | nil => rfl
    | cons node nodes ih =>
      obtain ⟨hfirst, hrest⟩ := List.isChain_cons_cons.1 h
      rw [mergeRun, if_neg fun hmerge => hfirst (canMerge_iff.1 hmerge), ih node hrest]

/-- Nowhere in the tree are two neighbours alike. -/
def IsMerged (node : Node) : Prop := ∀ part ∈ node.walk, NoneAlike part.children

lemma isMerged_iff {node : Node} : node.IsMerged ↔
    NoneAlike node.children ∧ ∀ child ∈ node.children, child.IsMerged :=
  forall_mem_walk_iff

/-- Whether a tree is merged depends on the parts of its root only. -/
lemma SameFrame.isMerged (h : SameFrame node other) (hmerged : node.IsMerged) :
    other.IsMerged := by
  rw [isMerged_iff, h.children]
  exact isMerged_iff.1 hmerged

mutual

theorem isMerged_mergeText : ∀ node : Node, node.mergeText.IsMerged
  | ⟨_, _, children, _⟩ => by
    rw [mergeText, isMerged_iff]
    refine ⟨noneAlike_mergeAdjacent _, fun out hout => ?_⟩
    obtain ⟨part, hpart, hframe⟩ := exists_sameFrame_of_mem_mergeAdjacent hout
    exact hframe.isMerged (isMerged_mergeTextAll children part hpart)

theorem isMerged_mergeTextAll : ∀ nodes : List Node, ∀ node ∈ mergeTextAll nodes, node.IsMerged
  | [] => List.forall_mem_nil _
  | node :: nodes => List.forall_mem_cons.2 ⟨isMerged_mergeText node, isMerged_mergeTextAll nodes⟩

end

mutual

theorem mergeText_of_isMerged : ∀ node : Node, node.IsMerged → node.mergeText = node
  | ⟨_, _, children, _⟩, h => by
    obtain ⟨hapart, hchildren⟩ := isMerged_iff.1 h
    rw [mergeText, mergeTextAll_of_isMerged children hchildren, mergeAdjacent_of_noneAlike hapart]

theorem mergeTextAll_of_isMerged : ∀ nodes : List Node, (∀ node ∈ nodes, node.IsMerged) →
    mergeTextAll nodes = nodes
  | [], _ => rfl
  | node :: nodes, h => by
    obtain ⟨hnode, hnodes⟩ := List.forall_mem_cons.1 h
    rw [mergeTextAll, mergeText_of_isMerged node hnode, mergeTextAll_of_isMerged nodes hnodes]

end

lemma exists_of_map_eq_flatten {α β : Type} {f : α → β} {xs : List α} {groups : List (List β)}
    (h : xs.map f = groups.flatten) :
    ∃ parts : List (List α), parts.map (List.map f) = groups ∧ parts.flatten = xs := by
  induction groups generalizing xs with
  | nil => exact ⟨[], rfl, (List.map_eq_nil_iff.1 h).symm⟩
  | cons group groups ih =>
    obtain ⟨front, back, rfl, rfl, hback⟩ := List.map_eq_append_iff.1 h
    obtain ⟨parts, rfl, rfl⟩ := ih hback
    exact ⟨front :: parts, rfl, rfl⟩

/-- A node is a first one with others, alike to it, joined to it: it says what they say, if pieces
of text have no parts, and has a span when they all have and the spans follow one another. Only
pieces of text are alike, so any other node is a single one as it was. -/
structure JoinedFrom (out first : Node) (rest : List Node) : Prop where
  kind : out.kind = first.kind
  others : out.props.erase Key.content = first.props.erase Key.content
  alike : ∀ part ∈ rest, Alike first part
  alone : rest = [] → out.props = first.props
  span : ∀ span, out.span = some span ↔
    ∃ spans, (first :: rest).map Node.span = spans.map some ∧ span.Covers spans
  text : (∀ part ∈ first :: rest, part.HasTextLeaves) →
    out.textContent = textContents (first :: rest)

/-- A node arises from nodes in a row that were joined, and so does each of its parts from parts of
the first of them: these are cut into rows, and none is left out. -/
inductive ArisesFrom : Node → List Node → Prop
  | intro {out first : Node} {rest : List Node} {groups : List (List Node)}
    (joined : JoinedFrom out first rest) (all : groups.flatten = first.children)
    (each : List.Forall₂ ArisesFrom out.children groups) : ArisesFrom out (first :: rest)

lemma span_foldl_merge (first : Node) (rest : List Node) :
    (rest.foldl merge first).span = (rest.map Node.span).foldl Span.through first.span := by
  induction rest generalizing first with
  | nil => rfl
  | cons node rest ih =>
    rw [List.foldl_cons, ih, List.map_cons, List.foldl_cons]
    rfl

lemma textContent_foldl_merge (halike : ∀ part ∈ rest, Alike first part)
    (hfirst : first.HasTextLeaves) (hrest : ∀ part ∈ rest, part.HasTextLeaves) :
    (rest.foldl merge first).textContent = textContents (first :: rest) := by
  induction rest generalizing first with
  | nil => rw [List.foldl_nil, textContents, textContents, String.append_empty]
  | cons node rest ih =>
    obtain ⟨hnode, hothers⟩ := List.forall_mem_cons.1 halike
    obtain ⟨hleaves, hleavesRest⟩ := List.forall_mem_cons.1 hrest
    obtain ⟨htext, hmerged⟩ := saysSame_merge (canMerge_iff.2 hnode) hfirst hleaves
    have hothers : ∀ part ∈ rest, Alike (merge first node) part := fun part hpart =>
      (sameFrame_merge first node).alike_left_iff.2 (hothers part hpart)
    rw [List.foldl_cons, ih hothers hmerged hleavesRest, textContents, htext, textContents,
      textContents, String.append_assoc]

@[simp] lemma mergeText_kind (node : Node) : node.mergeText.kind = node.kind := by
  cases node
  rfl

@[simp] lemma mergeText_props (node : Node) : node.mergeText.props = node.props := by
  cases node
  rfl

@[simp] lemma mergeText_span (node : Node) : node.mergeText.span = node.span := by
  cases node
  rfl

lemma alike_mergeText_iff : Alike left.mergeText right.mergeText ↔ Alike left right := by
  rw [Alike, Alike, mergeText_kind, mergeText_kind, mergeText_props, mergeText_props]

/-- Nodes that were put together after their parts had been merged. -/
lemma joinedFrom_foldl_merge (halike : ∀ part ∈ rest, Alike first part) :
    JoinedFrom ((rest.map mergeText).foldl merge first.mergeText) first rest := by
  have hframe := sameFrame_foldl_merge first.mergeText (rest.map mergeText)
  refine ⟨?_, ?_, halike, ?_, fun span => ?_, fun hleaves => ?_⟩
  · rw [hframe.kind, mergeText_kind]
  · rw [hframe.others, mergeText_props]
  · rintro rfl
    exact mergeText_props first
  · have hspans : (rest.map mergeText).map Node.span = rest.map Node.span := by
      simp
    rw [span_foldl_merge, mergeText_span, hspans, List.map_cons]
    exact Span.foldl_through_eq_some_iff
  · obtain ⟨htext, hall⟩ := sayAllSame_mergeTextAll (first :: rest) hleaves
    rw [mergeTextAll_eq_map] at htext hall
    obtain ⟨hfirst, hrest⟩ := List.forall_mem_cons.1 hall
    have hmerged : ∀ part ∈ rest.map mergeText, Alike first.mergeText part := by
      rw [List.forall_mem_map]
      exact fun part hpart => alike_mergeText_iff.2 (halike part hpart)
    rw [textContent_foldl_merge hmerged hfirst hrest, ← htext, List.map_cons]

/-- A node that was put together arises from those it was put together of, if the first of them,
whose parts it has, does so too. -/
lemma arisesFrom_of_mergedFrom {out : Node} {parts : List Node}
    (h : MergedFrom out (parts.map mergeText))
    (harises : ∀ part ∈ parts, ArisesFrom part.mergeText [part]) : ArisesFrom out parts := by
  obtain ⟨first, rest, rfl⟩ : ∃ first rest, parts = first :: rest := by
    cases parts with
    | nil => cases h
    | cons first rest => exact ⟨first, rest, rfl⟩
  obtain ⟨halike⟩ := h
  obtain ⟨-, hall, heach⟩ := harises first List.mem_cons_self
  refine .intro (joinedFrom_foldl_merge fun part hpart => ?_) hall ?_
  · exact alike_mergeText_iff.1 (halike _ (List.mem_map_of_mem hpart))
  · rw [(sameFrame_foldl_merge _ _).children]
    exact heach

lemma arisesFrom_of_groups {outs : List Node} {groups : List (List Node)}
    (hmerged : List.Forall₂ (fun out parts => MergedFrom out (parts.map mergeText)) outs groups)
    (harises : ∀ part ∈ groups.flatten, ArisesFrom part.mergeText [part]) :
    List.Forall₂ ArisesFrom outs groups := by
  induction hmerged with
  | nil => exact .nil
  | cons hout _ ih =>
    rw [List.flatten_cons, List.forall_mem_append] at harises
    exact .cons (arisesFrom_of_mergedFrom hout harises.1) (ih harises.2)

mutual

/-- A node is its own only origin, and its parts are put together of the parts that it had. -/
theorem arisesFrom_mergeText : ∀ node : Node, ArisesFrom node.mergeText [node]
  | ⟨kind, props, children, span⟩ => by
    have harises := arisesFrom_mergeTextAll children
    obtain ⟨merged, hmerged, heach⟩ := exists_groups_mergeAdjacent (mergeTextAll children)
    rw [mergeTextAll_eq_map] at hmerged
    obtain ⟨groups, rfl, rfl⟩ := exists_of_map_eq_flatten hmerged.symm
    refine .intro (joinedFrom_foldl_merge (List.forall_mem_nil _)) rfl ?_
    exact arisesFrom_of_groups (List.forall₂_map_right_iff.1 heach) harises

theorem arisesFrom_mergeTextAll : ∀ nodes : List Node, ∀ node ∈ nodes,
    ArisesFrom node.mergeText [node]
  | [] => List.forall_mem_nil _
  | node :: nodes =>
    List.forall_mem_cons.2 ⟨arisesFrom_mergeText node, arisesFrom_mergeTextAll nodes⟩

end

end Node

namespace Transform

/-- A document has one result of merging text, which is given whenever there is room for the tree, and
once is enough: no two neighbours of the result are alike, and merging once more leaves it as it is.
Every node of the result arises from nodes in a row of the document, alike to one another when they
are more than one. -/
theorem mergeText_normalForm (doc : Document) :
    ∃ merged, Makes .mergeText doc merged ∧ merged.content.IsMerged ∧
      Makes .mergeText merged merged ∧
      merged.content.depth ≤ doc.content.depth ∧
      Node.ArisesFrom merged.content [doc.content] := by
  have hmerged := Node.isMerged_mergeText doc.content
  have hagain := makes_mergeText { doc with content := doc.content.mergeText }
  dsimp only at hagain
  rw [Node.mergeText_of_isMerged _ hmerged] at hagain
  exact ⟨_, makes_mergeText doc, hmerged, hagain, Node.depth_mergeText_le doc.content,
    Node.arisesFrom_mergeText doc.content⟩

/-- There are documents, without any text, on which merging fails. -/
theorem apply_mergeText_tower_eq_tooDeep :
    Transform.mergeText.apply 1000 (Document.tower 1000) = .error (.tooDeep "merge-text") :=
  (makes_mergeText _).apply_of_le (Document.le_depth_tower 1000)

end Transform

end Interchange
