import Interchange.Proofs.Document.Texts
import Interchange.Proofs.Word.Blocks
import Interchange.Proofs.Word.Finding
import Interchange.Proofs.Word.Lines
import Interchange.Word.Reader

/-!
# References in a read document

What is read refers to nothing outside of the document: a reference has the label of a footnote, and
a picture names a resource that was added for it alone.
-/
namespace Interchange

open Markup (Element)

namespace Node

/-- The pictures, the references to footnotes and the footnotes. -/
def isMention (node : Node) : Bool :=
  node.kind = .image ∨ node.kind = .footnoteRef ∨ node.kind = .footnoteDef

/-- Those below some nodes, in the order of the document. -/
def mentions (nodes : List Node) : List Node := (walkAll nodes).filter isMention

@[simp] lemma mentions_nil : mentions [] = [] := rfl

@[simp] lemma mentions_append (nodes others : List Node) :
    mentions (nodes ++ others) = mentions nodes ++ mentions others := by
  simp only [mentions, walkAll_eq_flatMap, List.flatMap_append, List.filter_append]

lemma mentions_cons (node : Node) (nodes : List Node) :
    mentions (node :: nodes) = mentions [node] ++ mentions nodes := mentions_append [node] nodes

lemma mentions_eq_flatMap (nodes : List Node) :
    mentions nodes = nodes.flatMap fun node => mentions [node] := by
  induction nodes with
  | nil => rfl
  | cons node nodes ih => rw [mentions_cons, ih, List.flatMap_cons]

lemma mentions_singleton (node : Node) :
    mentions [node] = if node.isMention then node :: mentions node.children
      else mentions node.children := by
  have hwalk : walkAll [node] = node :: walkAll node.children := by
    rw [walkAll, walkAll, List.append_nil, walk_eq]
  rw [mentions, hwalk, List.filter_cons]
  rfl

/-- A node that is none of these has those of its children. -/
lemma mentions_of_parts {node : Node} (h : node.isMention = false) :
    mentions [node] = mentions node.children := by
  rw [mentions_singleton, h, if_neg Bool.false_ne_true]

/-- A node that is one of these with nothing of the kind below it. -/
lemma mentions_of_own {node : Node} (h : node.isMention = true)
    (hchildren : mentions node.children = []) : mentions [node] = [node] := by
  rw [mentions_singleton, h, if_pos rfl, hchildren]

lemma mentions_wrapped {kind : Kind} (h : (leaf kind).isMention = false) (node : Node) :
    mentions [branch kind [node]] = mentions [node] := mentions_of_parts h

lemma mentions_image (url alt resource : Option String) :
    mentions [image url alt resource] = [image url alt resource] := by
  cases url <;> cases alt <;> cases resource <;> rfl

end Node

namespace Word

open Finding Node

/-- What a text mentions: references with certain labels, and pictures of which some name resources
by certain identifiers, each once and in this order. -/
inductive Refers (labels : List String) : List Node → List ResourceId → Prop
  | nil : Refers labels [] []
  | reference {label : String} {nodes : List Node} {ids : List ResourceId} (h : label ∈ labels)
      (rest : Refers labels nodes ids) : Refers labels (.footnoteRef label :: nodes) ids
  | picture (url alt : Option String) {nodes : List Node} {ids : List ResourceId}
      (rest : Refers labels nodes ids) : Refers labels (.image url alt none :: nodes) ids
  | embedded (url alt : Option String) (id : ResourceId) {nodes : List Node}
      {ids : List ResourceId} (rest : Refers labels nodes ids) :
      Refers labels (.image url alt (some id.text) :: nodes) (id :: ids)

variable {labels : List String}

lemma Refers.append {nodes others : List Node} {ids more : List ResourceId}
    (h : Refers labels nodes ids) (h' : Refers labels others more) :
    Refers labels (nodes ++ others) (ids ++ more) := by
  induction h with
  | nil => exact h'
  | reference hlabel _ ih => exact .reference hlabel ih
  | picture url alt _ ih => exact .picture url alt ih
  | embedded url alt id _ ih => exact .embedded url alt id ih

/-- What some nodes mention. -/
def Leads (labels : List String) (nodes : List Node) (ids : List ResourceId) : Prop :=
  Refers labels (mentions nodes) ids

namespace Leads

variable {nodes others : List Node} {ids more : List ResourceId}

lemma nil : Leads labels [] [] := Refers.nil

lemma append (h : Leads labels nodes ids) (h' : Leads labels others more) :
    Leads labels (nodes ++ others) (ids ++ more) := by
  rw [Leads, mentions_append]
  exact Refers.append h h'

lemma of_mentions (hsame : mentions nodes = mentions others) (h : Leads labels others ids) :
    Leads labels nodes ids := by
  rwa [Leads, hsame]

lemma of_none (h : mentions nodes = []) : Leads labels nodes [] := by
  rw [Leads, h]
  exact Refers.nil

lemma of_image {url alt resource : Option String}
    (h : Refers labels [.image url alt resource] ids) :
    Leads labels [.image url alt resource] ids := by
  rwa [Leads, mentions_image]

lemma cons {node : Node} (h : Leads labels [node] ids) (h' : Leads labels others more) :
    Leads labels (node :: others) (ids ++ more) := append h h'

end Leads

variable {source : Source}

/-- The labels of the footnotes of a source. -/
def Source.labelled (source : Source) : List String := source.labels.map Prod.snd

namespace Inline

lemma gains_picture (run blip : Element) :
    Gains (picture source run blip) fun node ids => Leads labels [node] ids := by
  unfold picture
  dsimp only
  split
  · exact (leaves_note _).bind fun _ _ => gains_pure (.of_image (.picture _ _ .nil))
  · split
    · refine (gains_embed _).bind fun id ids hids => gains_pure ?_
      rw [hids]
      exact .of_image (.embedded _ _ id .nil)
    · exact (leaves_note _).bind fun _ _ => gains_pure (.of_image (.picture _ _ .nil))

lemma leads_of_footnoteRef? {reference : Element} {node : Node}
    (h : footnoteRef? source reference = some node) : Leads source.labelled [node] [] := by
  rw [footnoteRef?] at h
  obtain ⟨text, -, h⟩ := Option.bind_eq_some_iff.1 h
  obtain ⟨number, -, h⟩ := Option.bind_eq_some_iff.1 h
  obtain ⟨label, hlabel, h⟩ := Option.bind_eq_some_iff.1 h
  obtain ⟨entry, hentry, rfl⟩ := Option.map_eq_some_iff.1 hlabel
  have hmem : entry ∈ source.labels := List.mem_reverse.1 (List.mem_of_find?_eq_some hentry)
  rw [← Option.some.inj h]
  exact Refers.reference (List.mem_map_of_mem hmem) .nil

lemma leads_references (elements : List Element) :
    Leads source.labelled (elements.filterMap (footnoteRef? source)) [] := by
  induction elements with
  | nil => exact .nil
  | cons element elements ih =>
    rw [List.filterMap_cons]
    split
    · exact ih
    · next node hnode => exact (leads_of_footnoteRef? hnode).cons ih

lemma mentions_of_wraps {content : String} {node : Node} (h : Font.Wraps content node) :
    mentions [node] = [] := by
  have hwrappers : ∀ kind ∈ Font.wrappers, (leaf kind).isMention = false := by decide
  induction h with
  | text => rfl
  | wrapper hkind _ ih => rw [mentions_wrapped (hwrappers _ hkind), ih]

lemma ShowsLine.mentions_eq_nil {line : List Char} {part : List Node} (h : ShowsLine line part) :
    mentions part = [] := by
  cases h with
  | empty => rfl
  | text h => exact mentions_of_wraps h

lemma mentions_lineNodes {run : Element} {lines : List (List Char)} {nodes : List Node}
    (h : lineNodes run lines = some nodes) : mentions nodes = [] := by
  have hbreak : mentions [.lineBreak] = [] := rfl
  rw [taken_of_lineNodes mentions_nil mentions_append (fun _ _ h => h.mentions_eq_nil) h, hbreak]
  exact (Text.map_intercalate (f := fun _ : List Char => []) rfl (fun _ _ => rfl) [] lines).symm

theorem gains_run (element : Element) :
    Gains (run source element) (Leads source.labelled) := by
  have hlines {pictures : List Node} {ids : List ResourceId}
      (hpictures : Leads source.labelled pictures ids) :
      Gains (do
        let lines ← need (lineNodes element (Text.splitAt '\n' (runText element).toList))
        pure ((element.named (w "footnoteReference")).filterMap (footnoteRef? source) ++ pictures ++
          lines)) fun nodes more => Leads source.labelled nodes (ids ++ more) := by
    refine (leaves_need fun lines hlines => mentions_lineNodes hlines).bind fun lines hlines =>
      gains_pure ?_
    exact ((leads_references _).append hpictures).append (.of_none hlines)
  have hpictures : Gains ((element.deep (drawing "blip")).mapM (picture source element))
      (Leads source.labelled) := gains_mapM .nil .cons (gains_picture element) _
  unfold run
  dsimp only
  refine hpictures.bind fun pictures ids hpictures =>
    (leaves_need fun _ _ => trivial).bind fun own _ => ?_
  split
  · exact (leaves_note _).bind fun _ _ => hlines hpictures
  · exact hlines hpictures

/-- What each step leads to, the nodes of all lead to together. -/
lemma gains_flatten {α : Type} {step : α → Finding (List Node)}
    (h : ∀ a, Gains (step a) (Leads labels)) (items : List α) :
    Gains (items.mapM step) fun parts ids => Leads labels parts.flatten ids := by
  refine gains_mapM .nil (fun hb hbs => ?_) h items
  rw [List.flatten_cons]
  exact hb.append hbs

theorem gains_runs (elements : List Element) :
    Gains (runs source elements) (Leads source.labelled) := by
  refine (gains_flatten gains_run elements).bind fun parts ids hparts => gains_pure ?_
  rwa [List.append_nil]

lemma leaves_url (element : Element) : Leaves (url source element) fun _ => True := by
  unfold url
  split
  · exact leaves_pure trivial
  · split
    · exact leaves_pure trivial
    · split
      · exact (leaves_note _).bind fun _ _ => leaves_pure trivial
      · exact leaves_pure trivial

theorem gains_link (element : Element) :
    Gains (link source element) (Leads source.labelled) := by
  refine (gains_runs _).bind fun children ids hchildren => (leaves_url element).bind fun url _ =>
    gains_pure ?_
  rw [List.append_nil]
  split
  · exact hchildren
  · exact .of_mentions (mentions_of_parts rfl) hchildren

lemma gains_item (element : Element) : Gains (item source element) (Leads source.labelled) := by
  rw [item]
  split
  · exact gains_run element
  · split
    · exact gains_link element
    · exact gains_pure .nil

theorem gains_ofParagraph (paragraph : Element) :
    Gains (ofParagraph source paragraph) (Leads source.labelled) := by
  refine (gains_flatten gains_item _).bind fun parts ids hparts => gains_pure ?_
  rwa [List.append_nil]

end Inline

namespace Entry

/-- What an entry mentions. -/
def mentions : Entry → List Node
  | .item _ node => Node.mentions [node]
  | .block node => Node.mentions [node]
  | .nothing => []
  | .pageBreak => []

lemma PutTogether.mentions_eq {run : List Entry} {part : List Node} (h : PutTogether run part) :
    Node.mentions part = run.flatMap mentions := by
  cases h with
  | @items ordered items =>
    have hitems : Node.mentions [.list ordered items] = Node.mentions items := mentions_of_parts rfl
    rw [hitems, mentions_eq_flatMap, List.flatMap_map]
    rfl
  | block node => exact (List.append_nil _).symm
  | nothing => rfl
  | pageBreak => rfl

/-- Entries are put together in their order. -/
theorem mentions_blocks (entries : List Entry) :
    Node.mentions (blocks entries) = entries.flatMap mentions :=
  (grouped_blocks entries).taken mentions_nil mentions_append fun _ _ _ h => h.mentions_eq

end Entry

namespace Body

lemma mentions_of_plain? {styleName : String} {paragraph : Element} {inlines : List Node}
    {entry : Entry} (h : plain? styleName paragraph inlines = some entry) :
    entry.mentions = mentions inlines := by
  rw [plain?] at h
  split at h
  · rw [← Option.some.inj h]
    exact mentions_of_parts rfl
  · split at h
    · next hempty =>
      rw [← Option.some.inj h, List.isEmpty_iff.1 hempty]
      rfl
    · obtain ⟨alignment, -, rfl⟩ := Option.map_eq_some_iff.1 h
      cases alignment with
      | none => exact mentions_of_parts rfl
      | some alignment => exact mentions_of_parts rfl

theorem gains_paragraph (element : Element) : Gains (paragraph source element) fun entries ids =>
    Refers source.labelled (entries.flatMap Entry.mentions) ids := by
  have hlast {entry : Entry} {ids : List ResourceId}
      (hentry : Refers source.labelled entry.mentions ids) :
      Gains (pure (if endsPage element then [entry, .pageBreak] else [entry]) : Finding _)
        fun entries more =>
          Refers source.labelled (entries.flatMap Entry.mentions) (ids ++ more) := by
    refine gains_pure ?_
    split <;> simpa [Entry.mentions] using hentry
  unfold paragraph
  refine (Inline.gains_ofParagraph element).bind fun inlines ids hinlines =>
    (leaves_need fun _ _ => trivial).bind fun styleName _ => ?_
  dsimp only
  split
  · next ordered _ =>
    have hitem : (Entry.item ordered (.listItem [.paragraph inlines])).mentions =
        mentions inlines := (mentions_of_parts rfl).trans (mentions_of_parts rfl)
    split
    · exact (leaves_note _).bind fun _ _ => hlast (hitem ▸ hinlines)
    · exact hlast (hitem ▸ hinlines)
  · refine (leaves_need fun entry hentry => mentions_of_plain? hentry).bind fun entry hentry =>
      hlast (hentry ▸ hinlines)

lemma mentions_paragraphs (paragraphs : List (List Node)) :
    mentions ((paragraphs.filter (!·.isEmpty)).map .paragraph) = mentions paragraphs.flatten := by
  induction paragraphs with
  | nil => rfl
  | cons inlines paragraphs ih =>
    rw [List.flatten_cons, mentions_append, ← ih]
    by_cases hempty : inlines = []
    · subst hempty
      rfl
    · have hparts : mentions [.paragraph inlines] = mentions inlines := mentions_of_parts rfl
      rw [List.filter_cons_of_pos (by simpa using hempty), List.map_cons, mentions_cons, hparts]

lemma gains_cell (header : Bool) (element : Element) :
    Gains (cell source header element) fun node ids => Leads source.labelled [node] ids := by
  refine (Inline.gains_flatten Inline.gains_ofParagraph _).bind fun paragraphs ids hparagraphs =>
    gains_pure ?_
  rw [List.append_nil]
  exact .of_mentions ((mentions_of_parts rfl).trans (mentions_paragraphs paragraphs)) hparagraphs

/-- A cell that comes up in several rows is read, and its pictures are added, once for each. -/
lemma gains_cells (header : Bool) (seen : List GridPlace) (placed : List PlacedCell) :
    Gains (cells source header seen placed) (Leads source.labelled) := by
  induction placed generalizing seen with
  | nil => exact gains_pure .nil
  | cons first others ih =>
    rw [cells]
    split
    · exact (leaves_note _).bind fun _ _ => ih seen
    · refine (gains_cell header _).bind fun node ids hnode => (ih _).bind fun nodes more hnodes =>
        gains_pure ?_
      rw [List.append_nil]
      exact hnode.cons hnodes

lemma gains_rows (above others : List GridRow) :
    Gains (rows source above others) (Leads source.labelled) := by
  induction others generalizing above with
  | nil => exact gains_pure .nil
  | cons row others ih =>
    rw [rows]
    refine (leaves_need fun _ _ => trivial).bind fun placed _ =>
      (gains_cells _ [] placed).bind fun nodes ids hnodes => (ih _).bind fun later more hlater =>
        gains_pure ?_
    rw [List.append_nil]
    exact (Leads.of_mentions (mentions_of_parts rfl) hnodes).cons hlater

theorem gains_table (element : Element) :
    Gains (table source element) fun node ids => Leads source.labelled [node] ids := by
  refine (gains_rows [] _).bind fun rows ids hrows => gains_pure ?_
  rw [List.append_nil]
  exact .of_mentions (mentions_of_parts rfl) hrows

lemma gains_entries (element : Element) : Gains (entries source element) fun found ids =>
    Refers source.labelled (found.flatMap Entry.mentions) ids := by
  rw [entries]
  split
  · refine (gains_table element).bind fun node ids hnode => gains_pure ?_
    simpa [Entry.mentions, Leads] using hnode
  · split
    · exact gains_paragraph element
    · exact gains_pure .nil

theorem gains_blocks (body : Element) : Gains (blocks source body) (Leads source.labelled) := by
  have hentries : Gains (body.children.mapM (entries source)) fun parts ids =>
      Refers source.labelled (parts.flatten.flatMap Entry.mentions) ids := by
    refine gains_mapM .nil (fun hb hbs => ?_) gains_entries _
    rw [List.flatten_cons, List.flatMap_append]
    exact hb.append hbs
  refine hentries.bind fun parts ids hparts => gains_pure ?_
  rw [List.append_nil, Leads, Entry.mentions_blocks]
  exact hparts

end Body

end Word

end Interchange
