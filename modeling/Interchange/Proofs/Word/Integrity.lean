import Interchange.Proofs.Word.Keeping
import Interchange.Proofs.Word.Referring
import Interchange.Word.Writer

/-!
# Integrity of a read document

The footnotes of a read document stand at its end and are numbered from one; every reference is to
exactly one of them. A picture names a resource of the document or none at all, and every resource
is named by exactly one picture.
-/
namespace Interchange.Word

open Finding Node
open Markup (Element)

/-- The label of a footnote or of a reference. -/
def labelOf? (node : Node) : Option String := Bag.text? node.props Key.label

/-- Whether a node is a picture that names a resource. -/
def shows (id : ResourceId) (node : Node) : Bool :=
  node.kind = .image ∧ Bag.text? node.props Key.resource = some id.text

/-- The labels of so many footnotes. -/
def labelsUpTo (n : ℕ) : List String := (List.range n).map fun i => Number.natText (i + 1)

/-- Within a document, references lead to one footnote each, and pictures to resources, which have
one picture each. -/
structure RefersWithin (doc : Document) : Prop where
  footnotes : ∃ found, doc.content.children = found ++ footnoteNodes doc
  labels : (footnoteNodes doc).map labelOf? = (labelsUpTo (footnoteNodes doc).length).map some
  references : ∀ node ∈ doc.content.walk, node.kind = .footnoteRef →
    ∃ label, labelOf? node = some label ∧ ((footnoteNodes doc).map labelOf?).count (some label) = 1
  pictures : ∀ node ∈ doc.content.walk, node.kind = .image →
    ∀ value, node.props.get? Key.resource = some value →
      ∃ id ∈ doc.resources.keys, value = .text id.text
  resources : ∀ id ∈ doc.resources.keys, doc.content.walk.countP (shows id) = 1

section Image

variable (url alt resource : Option String)

lemma kind_image : (Node.image url alt resource).kind = .image := by
  cases url <;> cases alt <;> cases resource <;> rfl

lemma kind_image_ne {kind : Kind} (h : Kind.image ≠ kind) :
    (Node.image url alt resource).kind ≠ kind := by
  rwa [kind_image]

lemma get?_image : (Node.image url alt resource).props.get? Key.resource = resource.map .text := by
  cases url <;> cases alt <;> cases resource <;> rfl

lemma shows_image (id : ResourceId) :
    shows id (.image url alt resource) = decide (resource = some id.text) := by
  have htext : Bag.text? (Node.image url alt resource).props Key.resource = resource := by
    rw [Bag.text?, get?_image]
    cases resource <;> rfl
  rw [shows, kind_image, htext]
  simp

end Image

namespace Refers

variable {labels : List String} {nodes : List Node} {ids : List ResourceId}

lemma kind_ne (h : Refers labels nodes ids) : ∀ node ∈ nodes, node.kind ≠ .footnoteDef := by
  have hreference : Kind.footnoteRef ≠ .footnoteDef := by decide
  have himage : Kind.image ≠ .footnoteDef := by decide
  induction h with
  | nil => exact List.forall_mem_nil _
  | reference _ _ ih => exact List.forall_mem_cons.2 ⟨hreference, ih⟩
  | picture url alt _ ih => exact List.forall_mem_cons.2 ⟨kind_image_ne url alt _ himage, ih⟩
  | embedded url alt id _ ih => exact List.forall_mem_cons.2 ⟨kind_image_ne url alt _ himage, ih⟩

lemma exists_label (h : Refers labels nodes ids) :
    ∀ node ∈ nodes, node.kind = .footnoteRef → ∃ label ∈ labels, labelOf? node = some label := by
  have himage : Kind.image ≠ .footnoteRef := by decide
  induction h with
  | nil => exact List.forall_mem_nil _
  | @reference label _ _ hlabel _ ih =>
    exact List.forall_mem_cons.2 ⟨fun _ => ⟨label, hlabel, rfl⟩, ih⟩
  | picture url alt _ ih =>
    exact List.forall_mem_cons.2 ⟨fun hkind => absurd hkind (kind_image_ne url alt _ himage), ih⟩
  | embedded url alt id _ ih =>
    exact List.forall_mem_cons.2 ⟨fun hkind => absurd hkind (kind_image_ne url alt _ himage), ih⟩

lemma exists_id (h : Refers labels nodes ids) : ∀ node ∈ nodes, node.kind = .image →
    ∀ value, node.props.get? Key.resource = some value → ∃ id ∈ ids, value = .text id.text := by
  have hreference : Kind.footnoteRef ≠ .image := by decide
  induction h with
  | nil => exact List.forall_mem_nil _
  | reference _ _ ih => exact List.forall_mem_cons.2 ⟨fun hkind => absurd hkind hreference, ih⟩
  | picture url alt _ ih =>
    refine List.forall_mem_cons.2 ⟨fun _ value hvalue => ?_, ih⟩
    rw [get?_image] at hvalue
    cases hvalue
  | embedded url alt id _ ih =>
    refine List.forall_mem_cons.2
      ⟨fun _ value hvalue => ?_, fun node hnode hkind value hvalue => ?_⟩
    · rw [get?_image] at hvalue
      exact ⟨id, List.mem_cons_self, (Option.some.inj hvalue).symm⟩
    · obtain ⟨other, hother, hequal⟩ := ih node hnode hkind value hvalue
      exact ⟨other, List.mem_cons_of_mem _ hother, hequal⟩

/-- A resource is named once for each time that its identifier was given. -/
theorem countP_shows (h : Refers labels nodes ids) (id : ResourceId) :
    nodes.countP (shows id) = ids.count id := by
  have hreference (label : String) : ¬shows id (.footnoteRef label) = true := Bool.false_ne_true
  induction h with
  | nil => rfl
  | reference _ _ ih => rw [List.countP_cons_of_neg (hreference _), ih]
  | picture url alt _ ih => rw [List.countP_cons_of_neg (by simp [shows_image]), ih]
  | embedded url alt other _ ih =>
    by_cases hid : other = id
    · rw [List.countP_cons_of_pos (by simp [shows_image, hid]), ih, hid, List.count_cons_self]
    · have htext : other.text ≠ id.text := fun h => hid (congrArg ResourceId.mk h)
      rw [List.countP_cons_of_neg (by simp [shows_image, htext]), ih, List.count_cons_of_ne hid]

end Refers

namespace Footnote

lemma map_fst_labelled (footnotes : List Footnote) :
    (labelled footnotes).map Prod.fst = labelsUpTo footnotes.length := by
  rw [labelled, labelsUpTo]
  exact List.ext_getElem (by simp) fun i _ _ => by simp

lemma labelled_source {package : Package} (footnotes : List Footnote) (embeds : Bool) :
    (package.source footnotes embeds).labelled = labelsUpTo footnotes.length := by
  rw [← map_fst_labelled, Source.labelled, Package.source, labels, List.map_map]
  rfl

lemma map_labelOf?_definitions (footnotes : List Footnote) :
    (definitions footnotes).map labelOf? = (labelsUpTo footnotes.length).map some := by
  rw [← map_fst_labelled, definitions, List.map_map, List.map_map]
  rfl

lemma length_definitions (footnotes : List Footnote) :
    (definitions footnotes).length = footnotes.length := by
  rw [definitions, labelled, List.length_map, List.length_mapIdx]

lemma kind_of_mem_definitions {footnotes : List Footnote} :
    ∀ node ∈ definitions footnotes, node.kind = .footnoteDef := by
  intro node hnode
  obtain ⟨_, -, rfl⟩ := List.mem_map.1 hnode
  rfl

/-- A footnote holds plain text only. -/
lemma mentions_definitions (footnotes : List Footnote) :
    mentions (definitions footnotes) = definitions footnotes := by
  have hparagraphs (texts : List String) :
      mentions (texts.map fun text => .paragraph [.text text]) = [] := by
    induction texts with
    | nil => rfl
    | cons text texts ih =>
      rw [List.map_cons, mentions_cons, ih]
      rfl
  rw [definitions]
  induction labelled footnotes with
  | nil => rfl
  | cons entry entries ih =>
    obtain ⟨label, footnote⟩ := entry
    have hown : mentions [.footnoteDef label (footnote.paragraphs.map fun text =>
        .paragraph [.text text])] = [.footnoteDef label (footnote.paragraphs.map fun text =>
          .paragraph [.text text])] :=
      mentions_of_own rfl (hparagraphs footnote.paragraphs)
    rw [List.map_cons, mentions_cons, ih, hown]
    rfl

end Footnote

lemma labelsUpTo_nodup (n : ℕ) : (labelsUpTo n).Nodup :=
  List.nodup_range.map fun _ _ h => Nat.succ.inj (Number.natText_injective h)

variable {package : Package} {options : ReadOptions}

lemma leaves_passOver (sections : List Element) :
    Leaves (passOver package sections) fun _ => True := by
  have hheaders : Leaves (do
      if ← need (Section.showsAny? package sections) then
        lost "headers and footers" "Page headers and footers are not carried over")
      fun _ => True := by
    refine (leaves_need fun _ _ => trivial).bind fun shown _ => ?_
    split
    · exact leaves_note _
    · exact leaves_pure trivial
  unfold passOver
  dsimp only
  split
  · exact (leaves_note _).bind fun _ _ => hheaders
  · exact hheaders

lemma leaves_forM_note (notices : List Notice) :
    Leaves (notices.forM note) fun _ => True := by
  induction notices with
  | nil => exact leaves_pure trivial
  | cons notice notices ih => exact (leaves_note notice).bind fun _ _ => ih

/-- What is found in the body leads to the footnotes, which follow. -/
theorem gains_blocks (root : Element) (footnotes : List Footnote) (embeds : Bool) :
    Gains (blocks package root footnotes embeds) fun nodes ids =>
      ∃ found, nodes = found ++ Footnote.definitions footnotes ∧
        Leads (labelsUpTo footnotes.length) found ids := by
  refine (leaves_forM_note _).bind fun _ _ => (leaves_passOver _).bind fun _ _ =>
    (leaves_need fun _ _ => trivial).bind fun body _ =>
      (Body.gains_blocks body).bind fun found ids hfound => gains_pure ?_
  rw [Footnote.labelled_source] at hfound
  rw [List.append_nil]
  exact ⟨found, rfl, hfound⟩

/-- What is asked of mentioned nodes only is answered by these. -/
lemma filter_walk_document {p : Node → Bool} (h : ∀ node, p node = true → node.isMention = true)
    (nodes : List Node) : (Node.document nodes).walk.filter p = (mentions nodes).filter p := by
  have hroot : p (.document nodes) = false := by
    by_contra hp
    have := h _ (Bool.not_eq_false _ ▸ hp)
    cases this
  rw [Node.walk_eq, List.filter_cons, hroot, if_neg Bool.false_ne_true, mentions,
    List.filter_filter]
  refine List.filter_congr fun node _ => ?_
  cases hp : p node with
  | false => rw [Bool.false_and]
  | true => rw [h node hp, Bool.and_true]

lemma mem_mentions_of_mem_walk {nodes : List Node} {node : Node}
    (h : node ∈ (Node.document nodes).walk) (hmention : node.isMention = true) :
    node ∈ mentions nodes := by
  have hfilter := filter_walk_document (fun _ hp => hp) nodes
  have hmem := List.mem_filter.2 ⟨h, hmention⟩
  rw [hfilter] at hmem
  exact (List.mem_filter.1 hmem).1

section Assembly

variable {doc : Document} {found : List Node} {footnotes : List Footnote}

lemma mentions_found (found : List Node) (footnotes : List Footnote) :
    mentions (found ++ Footnote.definitions footnotes) =
      mentions found ++ Footnote.definitions footnotes := by
  rw [mentions_append, Footnote.mentions_definitions]

/-- Only the footnotes at the end are footnotes. -/
lemma footnoteNodes_eq {labels : List String} {ids : List ResourceId}
    (hcontent : doc.content = .document (found ++ Footnote.definitions footnotes))
    (hleads : Leads labels found ids) : footnoteNodes doc = Footnote.definitions footnotes := by
  have hbody : (mentions found).filter (·.kind = .footnoteDef) = [] := by
    refine List.filter_eq_nil_iff.2 fun node hnode => ?_
    simpa using hleads.kind_ne node hnode
  have hown : (Footnote.definitions footnotes).filter (·.kind = .footnoteDef) =
      Footnote.definitions footnotes := by
    refine List.filter_eq_self.2 fun node hnode => ?_
    simpa using Footnote.kind_of_mem_definitions node hnode
  have hmention (node : Node) (h : decide (node.kind = .footnoteDef) = true) :
      node.isMention = true := by
    simp [isMention, of_decide_eq_true h]
  rw [footnoteNodes, hcontent, filter_walk_document hmention, mentions_found, List.filter_append,
    hbody, hown, List.nil_append]

/-- A mentioned node that is no footnote is mentioned in the body. -/
lemma mem_mentions_found
    (hcontent : doc.content = .document (found ++ Footnote.definitions footnotes)) {node : Node}
    (hnode : node ∈ doc.content.walk) (hmention : node.isMention = true)
    (hkind : node.kind ≠ .footnoteDef) : node ∈ mentions found := by
  rw [hcontent] at hnode
  have hmem := mem_mentions_of_mem_walk hnode hmention
  rw [mentions_found] at hmem
  rcases List.mem_append.1 hmem with hmem | hmem
  · exact hmem
  · exact absurd (Footnote.kind_of_mem_definitions node hmem) hkind

lemma countP_shows_walk
    (hcontent : doc.content = .document (found ++ Footnote.definitions footnotes))
    (id : ResourceId) :
    doc.content.walk.countP (shows id) = (mentions found).countP (shows id) := by
  have hmention (node : Node) (h : shows id node = true) : node.isMention = true := by
    have hkind : node.kind = .image := (of_decide_eq_true h).1
    simp [isMention, hkind]
  have hnone : (Footnote.definitions footnotes).countP (shows id) = 0 := by
    refine List.countP_eq_zero.2 fun node hnode => ?_
    have hkind : node.kind ≠ .image := by
      rw [Footnote.kind_of_mem_definitions node hnode]
      decide
    simp [shows, hkind]
  rw [hcontent, List.countP_eq_length_filter, filter_walk_document hmention, mentions_found,
    ← List.countP_eq_length_filter, List.countP_append, hnone, Nat.add_zero]

/-- A body that leads to the footnotes behind it and to the resources makes a document that refers
to nothing outside. -/
theorem refersWithin_of_leads
    (hcontent : doc.content = .document (found ++ Footnote.definitions footnotes))
    (hleads : Leads (labelsUpTo footnotes.length) found doc.resources.keys) : RefersWithin doc := by
  have hnotes := footnoteNodes_eq hcontent hleads
  refine ⟨⟨found, ?_⟩, ?_, fun node hnode hkind => ?_, fun node hnode hkind => ?_, fun id hid => ?_⟩
  · rw [hnotes, hcontent]
    rfl
  · rw [hnotes, Footnote.map_labelOf?_definitions, Footnote.length_definitions]
  · have hmem := mem_mentions_found hcontent hnode (by simp [isMention, hkind])
      (by rw [hkind]; decide)
    obtain ⟨label, hlabel, hown⟩ := hleads.exists_label node hmem hkind
    refine ⟨label, hown, ?_⟩
    rw [hnotes, Footnote.map_labelOf?_definitions]
    have hnodup := (labelsUpTo_nodup footnotes.length).map (Option.some_injective _)
    exact List.count_eq_one_of_mem hnodup (List.mem_map_of_mem hlabel)
  · have hmem := mem_mentions_found hcontent hnode (by simp [isMention, hkind])
      (by rw [hkind]; decide)
    exact hleads.exists_id node hmem hkind
  · rw [countP_shows_walk hcontent, hleads.countP_shows]
    exact List.count_eq_one_of_mem doc.resources.nodup hid

end Assembly

/-- The document of a package that is accepted refers to nothing outside of it. -/
theorem refersWithin_read {outcome : Outcome Document} (h : read package options = .ok outcome) :
    RefersWithin outcome.value := by
  obtain ⟨root, footnotes, nodes, findings, -, hblocks, hcontent, hresources, -⟩ :=
    findings_of_read h
  obtain ⟨ids, -, hheld, found, rfl, hleads⟩ :=
    gains_blocks root footnotes options.embeds _ _ _ hblocks Findings.isCounted_none
  have hids : outcome.value.resources.keys = ids := by
    rw [hresources]
    exact hheld
  exact refersWithin_of_leads hcontent (hids ▸ hleads)

/-- What is read, by computation. -/
lemma exists_outcome {P : Outcome Document → Prop} [DecidablePred P]
    (h : (document? package options).map (fun outcome => decide (P outcome)) = some true) :
    ∃ outcome, read package options = .ok outcome ∧ P outcome := by
  obtain ⟨outcome, hread, hproperty⟩ := Option.map_eq_some_iff.1 h
  exact ⟨outcome, by rw [read, hread], of_decide_eq_true hproperty⟩

/-- The cell with the picture goes on in the second row, where it is read once more. The first
footnote is a separator, and the second one is referred to from outside of the table. -/
theorem refersWithin_read_illustrated :
    let shown : Element := .branch (w "r") [.branch (w "drawing") [
      .leaf (drawing "blip") [⟨r "embed", "rIdPicture"⟩]]]
    let cell (merge : String) (content : List Element) : Element :=
      .branch (w "tc") (.branch (w "tcPr") [.leaf (w "vMerge") [⟨w "val", merge⟩]] :: content)
    let body : Element := .branch (w "body") [
      .branch (w "p") [.branch (w "r") [.ofText (w "t") "see",
        .leaf (w "footnoteReference") [⟨w "id", "7"⟩],
        .leaf (w "footnoteReference") [⟨w "id", "9"⟩]]],
      .branch (w "tbl") [
        .branch (w "tr") [cell "restart" [.branch (w "p") [shown]]],
        .branch (w "tr") [cell "continue" [.branch (w "p") []]]]]
    let note (attributes : List Markup.Attribute) (text : String) : Markup.Item :=
      .element ⟨w "footnote", attributes,
        [.element (.branch (w "p") [.branch (w "r") [.ofText (w "t") text]])]⟩
    let notes : Element := ⟨w "footnotes", [],
      [note [⟨w "type", "separator"⟩, ⟨w "id", "0"⟩] "--", note [⟨w "id", "3"⟩] "one",
        note [⟨w "id", "7"⟩] "two"]⟩
    let main : Part := ⟨"/word/document.xml", mainType, .markup (.branch (w "document") [body]),
      [⟨"rIdNotes", documentRelation "footnotes", .part "/word/footnotes.xml"⟩,
        ⟨"rIdPicture", documentRelation "image", .part "/word/media/image1.png"⟩]⟩
    let package : Package := ⟨[], [main,
      ⟨"/word/footnotes.xml", wordType "footnotes", .markup notes, []⟩,
      ⟨"/word/media/image1.png", "image/png", .data ⟨#[1, 2, 3]⟩, []⟩], main⟩
    ∃ outcome, read package .standard = .ok outcome ∧
      outcome.value.resources.keys = [⟨"res_0"⟩, ⟨"res_1"⟩] ∧
      (footnoteNodes outcome.value).map labelOf? = [some "1", some "2"] ∧
      RefersWithin outcome.value := by
  intro shown cell body note notes main package
  obtain ⟨outcome, hread, hkeys, hlabels⟩ : ∃ outcome, read package .standard = .ok outcome ∧
      outcome.value.resources.keys = [⟨"res_0"⟩, ⟨"res_1"⟩] ∧
      (footnoteNodes outcome.value).map labelOf? = [some "1", some "2"] :=
    exists_outcome (by decide +kernel)
  exact ⟨outcome, hread, hkeys, hlabels, refersWithin_read hread⟩

end Interchange.Word
