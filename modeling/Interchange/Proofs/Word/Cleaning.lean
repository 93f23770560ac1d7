import Interchange.Proofs.Word.Metadata
import Interchange.Proofs.Word.Noting
import Interchange.Proofs.Word.Storing

/-!
# Characters that are removed

Wherever a text is put into a package, the characters that markup forbids are left out, and no
others. That some were left out is reported once, if there were any. In a run a carriage return
comes out as a line break, since a line ends there.
-/
namespace Interchange.Word

open PackageText (stored stored_append stored_cons stored_run stored_apart)

lemma blockTexts_append (blocks others : List Block) :
    blockTexts (blocks ++ others) = blockTexts blocks ++ blockTexts others := by
  rw [blockTexts, paragraphsOfBlocks_append, List.flatMap_append]
  rfl

lemma blockTexts_paragraph (paragraph : Paragraph) :
    blockTexts [.paragraph paragraph] = paragraph.items.flatMap RunItem.texts := by
  simp [blockTexts, paragraphsOfBlocks, Block.paragraphs]

lemma blockTexts_run (style : Option String) (alignment : Option Alignment) (run : Run) :
    blockTexts [.paragraph ⟨style, alignment, [.run run]⟩] = run.texts := by
  rw [blockTexts_paragraph, List.flatMap_singleton, RunItem.texts]

lemma blockTexts_empty_cons (blocks : List Block) :
    blockTexts (.paragraph .empty :: blocks) = blockTexts blocks := by
  rw [← List.singleton_append, blockTexts_append, blockTexts_paragraph]
  rfl

def cellTexts (cells : List (List Block)) : List PackageText := cells.flatMap blockTexts

def rowTexts (rows : List (List (List Block))) : List PackageText := rows.flatMap cellTexts

lemma cellTexts_padRow (width : ℕ) (cells : List (List Block)) :
    cellTexts (padRow width cells) = cellTexts cells := by
  have hempty (n : ℕ) : cellTexts (List.replicate n [.paragraph .empty]) = [] :=
    List.flatMap_eq_nil_iff.2 fun cell hcell => by
      rw [List.eq_of_mem_replicate hcell]
      exact blockTexts_empty_cons []
  rw [padRow, cellTexts, List.flatMap_append]
  exact (congrArg (cellTexts cells ++ ·) (hempty _)).trans (List.append_nil _)

/-- A table has the texts of its rows, and the paragraph that follows it in a cell is empty. -/
lemma blockTexts_tableBlocks (setting : Setting) (spot : Spot) (rows : List (List (List Block))) :
    blockTexts (tableBlocks setting spot rows) = rowTexts rows := by
  have hcells (cells : List (List Block)) :
      (paragraphsOfCells cells).flatMap (fun p => p.items.flatMap RunItem.texts) =
        cellTexts cells := by
    induction cells with
    | nil => rfl
    | cons cell cells ih =>
      rw [paragraphsOfCells, List.flatMap_append, ih]
      rfl
  have hrows : blockTexts [.table setting.tableStyle rows] = rowTexts rows := by
    rw [blockTexts, paragraphsOfBlocks, Block.paragraphs, paragraphsOfBlocks, List.append_nil]
    induction rows with
    | nil => rfl
    | cons row rows ih =>
      rw [paragraphsOfRows, List.flatMap_append, hcells, ih]
      rfl
  have hempty : blockTexts (if spot.inCell then [.paragraph .empty] else []) = [] := by
    split
    · exact blockTexts_empty_cons []
    · rfl
  rw [tableBlocks, ← List.singleton_append, blockTexts_append, hrows, hempty, List.append_nil]

section Blocks

variable (doc : Document) (tables : Option String)

lemma stores_composeParagraph (style : Option String) (alignment : Option Alignment)
    (children : List Node) :
    Stores (Node.walkAll children) blockTexts
      (composeParagraph (.ofDocument doc tables) style alignment children)
      (textsInLines doc children) := by
  rw [Stores, composeParagraph, Noted.bind_value, Noted.bind_notices, Noted.pure_value,
    blockTexts_paragraph, composeItems, Noted.map_value, Noted.map_notices, List.flatMap_map]
  exact (stores_composeAll doc tables .plain children).returned

lemma stores_composeOwnParagraph (spot : Spot) (kind : Kind) (props : Bag)
    (children : List Node) :
    Stores (Node.walkAll children) blockTexts
      (composeOwnParagraph (.ofDocument doc tables) spot kind props children)
      (textsInLines doc children) := by
  rw [composeOwnParagraph]
  split
  · split <;> exact stores_composeParagraph doc tables _ _ _
  · exact stores_composeParagraph doc tables _ _ _

lemma stores_composeCode (props : Bag) :
    Stores [] blockTexts (composeCode props) [⟨.run, Bag.textOr props Key.content⟩] := by
  rw [Stores, composeCode, Noted.bind_value, Noted.bind_notices, Noted.pure_value, blockTexts_run]
  exact (stores_composeRun _ _).returned

lemma stores_composeRule (spot : Spot) (props : Bag) :
    Stores [] blockTexts (composeRule spot props)
      (if Bag.isOn props Key.pageBreak ∧ !spot.inCell then [] else [⟨.run, "* * *"⟩]) := by
  have hrule : IsApart ruleNotice := isApart_simplified (by decide) (by decide)
  rw [composeRule]
  split
  · rw [Stores, Noted.pure_value, blockTexts_run]
    exact .nil
  · have hstorable : isStorable "* * *" = true := by decide
    have hstars : Accounts [] (Run.ofText .plain "* * *").texts [] [⟨.run, "* * *"⟩] := by
      refine ⟨?_, by simp [hstorable], List.forall_mem_nil _⟩
      rw [← texts_ofText .plain, allowedText_of_isStorable hstorable]
    rw [Stores, Noted.bind_value, Noted.pure_value, blockTexts_run]
    exact hstars.noting hrule

lemma stores_composeText (text : String) :
    Stores [] blockTexts (composeText text) [⟨.run, text⟩] := by
  have htexts : blockTexts [.paragraph (.ofText (allowedText text))] = stored [⟨.run, text⟩] := by
    rw [blockTexts_paragraph, Paragraph.ofText, ← texts_ofText .plain]
    split
    · next hempty =>
      rw [hempty]
      rfl
    · rw [List.flatMap_singleton, RunItem.texts]
  rw [Stores, composeText, Noted.bind_value, Noted.bind_notices, Noted.pure_value, storable_value]
  exact (Accounts.source htexts).returned

lemma stores_composeUnknownBlock (node : Node) :
    Stores [node] blockTexts (composeUnknownBlock node) [⟨.run, node.plainText⟩] := by
  rw [Stores, composeUnknownBlock, Noted.bind_value, Noted.bind_notices]
  refine Accounts.unknown node ?_
  split
  · next hempty =>
    rw [hempty]
    exact .void
  · exact stores_composeText _

lemma stores_composeNestedTable (node : Node) :
    Stores [] blockTexts (composeNestedTable node) [⟨.run, node.textContent⟩] := by
  have hnested : IsApart nestedNotice := isApart_simplified (by decide) (by decide)
  exact (stores_composeText _).noting hnested

/-- What is noted of a list has nothing to do with its texts. -/
lemma isApart_listNotices (spot : Spot) (props : Bag) :
    ∀ notice ∈ listNotices spot props, IsApart notice := by
  have hstart : IsApart startNotice := isApart_simplified (by decide) (by decide)
  have hdepth : IsApart depthNotice := isApart_simplified (by decide) (by decide)
  refine List.forall_mem_append.2 ⟨?_, ?_⟩ <;> split
  · exact List.forall_mem_singleton.2 hstart
  · exact List.forall_mem_nil _
  · exact List.forall_mem_singleton.2 hdepth
  · exact List.forall_mem_nil _

/-- In a table without cells there are no texts. -/
lemma textsInRows_of_tableWidth {nodes : List Node} (h : tableWidth nodes = 0) :
    textsInRows doc nodes = [] := by
  have hrows := children_of_tableWidth h
  clear h
  induction nodes with
  | nil => rfl
  | cons node nodes ih =>
    obtain ⟨hnode, hrest⟩ := List.forall_mem_cons.1 hrows
    obtain ⟨kind, props, children, span⟩ := node
    rw [textsInRows, ih hrest, List.append_nil]
    split
    · next hkind =>
      have hnone : children = [] := hnode hkind
      rw [hnone]
      rfl
    · rfl

lemma textsInCell_of_isInline {nodes : List Node} (h : nodes.all isInline = true) :
    textsInCell doc nodes = textsInLines doc nodes := by
  induction nodes with
  | nil => rfl
  | cons node nodes ih =>
    rw [List.all_cons, Bool.and_eq_true] at h
    have hrole := ofKind_of_isInline h.1
    have htable := kind_ne_table_of_isInline h.1
    obtain ⟨kind, props, children, span⟩ := node
    have hkind : BlockRole.ofKind kind = .inline := hrole
    rw [textsInCell, textsInLines, if_neg htable, ih h.2, textsIn, hkind]

section

variable (setting : Setting)

lemma composeCellBlocks_cons_notices (node : Node) (nodes : List Node) :
    (composeCellBlocks setting (node :: nodes)).notices =
      (cellBlock setting node).notices ++ (composeCellBlocks setting nodes).notices := by
  rw [composeCellBlocks, cellBlock]
  split <;> simp only [Noted.bind_notices, Noted.pure_notices, List.append_nil]

lemma composeCell_of_block_notices {node : Node} {nodes : List Node}
    (hline : (node :: nodes).all isInline = false) (hkind : node.kind ≠ .paragraph) :
    (composeCell setting (node :: nodes)).notices =
      (composeCellBlocks setting (node :: nodes)).notices := by
  rw [composeCell, hline, if_neg Bool.false_ne_true, if_neg hkind, composeCellBlocks_cons_notices,
    cellBlock]
  split <;> simp only [Noted.bind_notices, Noted.pure_notices, List.append_nil]

end

mutual

/-- The cases are the roles of a block. -/
theorem stores_composeBlock (spot : Spot) : ∀ node : Node,
    Stores node.walk blockTexts (composeBlock (.ofDocument doc tables) spot node)
      (textsIn doc spot.inCell spot.inList node)
  | ⟨kind, props, children, span⟩ => by
    have hwalk : Node.walkAll children ⊆ (Node.mk kind props children span).walk :=
      Node.below_subset_walk ⟨kind, props, _, span⟩
    have hself : [Node.mk kind props children span] ⊆ (Node.mk kind props children span).walk :=
      Node.self_subset_walk _
    rw [composeBlock, textsIn]
    generalize BlockRole.ofKind kind = role
    cases role with
    | container => exact (stores_composeBlocks spot.within children).within hwalk
    | paragraph =>
      exact (stores_composeOwnParagraph doc tables spot kind props children).within hwalk
    | heading => exact (stores_composeParagraph doc tables _ _ children).within hwalk
    | codeBlock => exact (stores_composeCode props).within (List.nil_subset _)
    | quote => exact (stores_composeBlocks spot.quoted children).within hwalk
    | list =>
      have hitems := stores_composeBlocks (spot.list (Bag.isOn props Key.ordered)) children
      exact (hitems.notingAll (isApart_listNotices spot props)).within hwalk
    | listItem =>
      dsimp only
      split
      · exact (stores_composeBlocks spot.item children).within hwalk
      · exact (stores_composeUnknownBlock _).within hself
    | table =>
      dsimp only
      split
      · next hwidth =>
        rw [textsInRows_of_tableWidth doc hwidth]
        exact .nil
      · have hragged : IsApart raggedNotice := isApart_simplified (by decide) (by decide)
        have hrows := stores_composeRows (tableWidth children) children
        rw [Stores, Noted.bind_value, Noted.bind_value, Noted.pure_value, blockTexts_tableBlocks]
        exact (hrows.returned.notingAll (isApart_noteWhen _ hragged)).within hwalk
    | rule => exact (stores_composeRule spot props).within (List.nil_subset _)
    | footnoteDef => exact .nil
    | inline =>
      have hline := stores_composeParagraph doc tables spot.lineStyle none
        [⟨kind, props, children, span⟩]
      rwa [textsInLines, textsInLines, List.append_nil, Node.walkAll_singleton] at hline
    | unknown => exact (stores_composeUnknownBlock _).within hself

theorem stores_composeBlocks (spot : Spot) : ∀ nodes : List Node,
    Stores (Node.walkAll nodes) blockTexts (composeBlocks (.ofDocument doc tables) spot nodes)
      (textsAmong doc spot.inCell spot.inList nodes)
  | [] => .nil
  | node :: nodes => by
    rw [Stores, composeBlocks, Noted.bind_value, Noted.bind_value, Noted.pure_value,
      blockTexts_append]
    exact (stores_composeBlock spot node).append (stores_composeBlocks spot nodes).returned

theorem stores_composeRows (width : ℕ) : ∀ nodes : List Node,
    Stores (Node.walkAll nodes) rowTexts (composeRows (.ofDocument doc tables) width nodes)
      (textsInRows doc nodes)
  | [] => .nil
  | ⟨kind, props, cells, span⟩ :: nodes => by
    have hrest := stores_composeRows width nodes
    have hwalk : Node.walkAll cells ⊆ (Node.mk kind props cells span).walk :=
      Node.below_subset_walk ⟨kind, props, _, span⟩
    rw [Stores, composeRows, textsInRows]
    by_cases hkind : kind = .tableRow
    · subst hkind
      have hcells := stores_composeCells cells
      simp only [eq_self, if_true, Noted.bind_value, Noted.pure_value, Noted.bind_notices]
      rw [rowTexts, List.flatMap_cons, cellTexts_padRow]
      exact (hcells.within hwalk).append hrest.returned
    · simp only [hkind, if_false, Noted.bind_value, Noted.pure_value, Noted.bind_notices]
      exact hrest.returned.within (List.subset_append_right _ _)

theorem stores_composeCells : ∀ nodes : List Node,
    Stores (Node.walkAll nodes) cellTexts (composeCells (.ofDocument doc tables) nodes)
      (textsInCells doc nodes)
  | [] => .nil
  | ⟨kind, props, children, span⟩ :: nodes => by
    have hwalk : Node.walkAll children ⊆ (Node.mk kind props children span).walk :=
      Node.below_subset_walk ⟨kind, props, _, span⟩
    rw [Stores, composeCells, Noted.bind_value, Noted.bind_value, Noted.pure_value, cellTexts,
      List.flatMap_cons]
    exact ((stores_composeCell children).within hwalk).append
      (stores_composeCells nodes).returned

theorem stores_composeCell : ∀ nodes : List Node,
    Stores (Node.walkAll nodes) blockTexts (composeCell (.ofDocument doc tables) nodes)
      (textsInCell doc nodes)
  | [] => .nil
  | node :: nodes => by
    by_cases hline : (node :: nodes).all isInline = true
    · rw [Stores, composeCell, if_pos hline, textsInCell_of_isInline doc hline]
      exact stores_composeParagraph doc tables _ _ _
    by_cases hkind : node.kind = .paragraph
    · have hfirst := stores_composeParagraph doc tables none none node.children
      have hwalk : Node.walkAll node.children ⊆ node.walk := Node.below_subset_walk node
      have hown : (if node.kind = .table then [⟨.run, node.textContent⟩]
          else textsIn doc true false node) = textsInLines doc node.children := by
        obtain ⟨kind, props, children, span⟩ := node
        obtain rfl : kind = .paragraph := hkind
        rfl
      rw [Stores, composeCell, if_neg hline, if_pos hkind, Noted.bind_value, Noted.bind_value,
        Noted.pure_value, blockTexts_append, textsInCell, hown]
      exact (hfirst.within hwalk).append (stores_composeCellBlocks nodes).returned
    · rw [Stores, composeCell_of_block _ (Bool.eq_false_iff.2 hline) hkind, blockTexts_empty_cons,
        composeCell_of_block_notices _ (Bool.eq_false_iff.2 hline) hkind]
      exact stores_composeCellBlocks (node :: nodes)

theorem stores_composeCellBlocks : ∀ nodes : List Node,
    Stores (Node.walkAll nodes) blockTexts (composeCellBlocks (.ofDocument doc tables) nodes)
      (textsInCell doc nodes)
  | [] => .nil
  | node :: nodes => by
    rw [Stores, composeCellBlocks_cons, composeCellBlocks_cons_notices, textsInCell,
      blockTexts_append, cellBlock]
    refine Accounts.append ?_ (stores_composeCellBlocks nodes)
    split
    · exact (stores_composeNestedTable node).within (List.nil_subset _)
    · exact stores_composeBlock .inTableCell node

end

end Blocks

lemma accounts_bodies (number : ℕ) (definitions : List Node) :
    Accounts [] (numberedTexts number (definitions.map bodyOf))
      (definitions.flatMap fun node => (footnoteTexts node).flatMap fun text =>
        (storable text).notices)
      (numberedTexts number (definitions.map footnoteTexts)) := by
  induction definitions generalizing number with
  | nil => exact .nil
  | cons definition definitions ih =>
    have hown : Accounts [] ((bodyOf definition).map (⟨.footnote number, ·⟩))
        ((footnoteTexts definition).flatMap fun text => (storable text).notices)
        ((footnoteTexts definition).map (⟨.footnote number, ·⟩)) := by
      rw [bodyOf, List.map_map, List.map_eq_flatMap, List.map_eq_flatMap]
      exact Accounts.each fun text => .elsewhere (.footnote number) (by simp) text
    exact hown.append (ih (number + 1))

lemma stores_composeFootnotes (definitions : List Node) :
    Stores [] (numberedTexts 1) (composeFootnotes definitions)
      (numberedTexts 1 (definitions.map footnoteTexts)) := by
  have hformatting : IsApart formattingNotice := isApart_simplified (by decide) (by decide)
  have hvalue : (composeFootnotes definitions).value = definitions.map bodyOf := by
    simp only [composeFootnotes, Noted.bind_value, Noted.pure_value, Noted.mapM_value,
      storable_value]
    rfl
  rw [Stores, hvalue, composeFootnotes, Noted.bind_notices, Noted.bind_notices,
    Noted.pure_notices, List.append_nil]
  simp only [Noted.mapM_notices]
  exact (accounts_bodies 1 definitions).followed (isApart_noteWhen _ hformatting)

/-- What is noted of a core property. -/
def fieldNotices (metadata : Bag) (field : CoreField) : List Notice :=
  match Bag.filled? metadata field.name with
  | none => []
  | some text => (storable text).notices ++
    (Noted.noteWhen (coreLimit < (allowedText text).toList.length) (cutNotice field)).notices

lemma composeField_notices (metadata : Bag) (properties : CoreProperties) (field : CoreField) :
    (composeField metadata properties field).notices = fieldNotices metadata field := by
  rw [composeField, fieldNotices]
  cases Bag.filled? metadata field.name with
  | none => rfl
  | some text =>
    simp only [Noted.bind_notices, Noted.pure_notices, List.append_nil]
    rfl

/-- What a new package says can be stored as it is. -/
lemma cleaned_ofTemplate (field : CoreField) :
    (⟨.core field, CoreProperties.ofTemplate field⟩ : PackageText).cleaned =
        ⟨.core field, CoreProperties.ofTemplate field⟩ ∧
      isStorable (CoreProperties.ofTemplate field) = true := by
  cases field <;> decide +kernel

lemma isApart_cutNotice (field : CoreField) : IsApart (cutNotice field) :=
  isApart_simplified (fun h => by cases h) (by cases field <;> decide)

lemma accounts_field (metadata : Bag) (field : CoreField) :
    Accounts [] [⟨.core field, composedText metadata .ofTemplate field⟩]
      (fieldNotices metadata field)
      [⟨.core field,
        (Bag.filled? metadata field.name).getD (CoreProperties.ofTemplate field)⟩] := by
  rw [composedText, fieldNotices]
  cases Bag.filled? metadata field.name with
  | none =>
    obtain ⟨hcleaned, hstorable⟩ := cleaned_ofTemplate field
    refine ⟨?_, by simp [hstorable], List.forall_mem_nil _⟩
    rw [Option.getD_none, stored_apart (.core field) (by simp), hcleaned]
  | some text =>
    exact (Accounts.elsewhere (.core field) (by simp) text).followed
      (isApart_noteWhen _ (isApart_cutNotice field))

lemma stores_composeCore (metadata : Bag) :
    Stores [] propertyTexts (composeCore metadata) (coreTexts metadata) := by
  rw [Stores, propertyTexts, composeCore, Noted.foldlM_notices (composeField_notices metadata),
    coreTexts, List.map_eq_flatMap, List.map_eq_flatMap]
  refine Accounts.each fun field => ?_
  have hvalue := composeCore_value metadata field
  rw [composeCore] at hvalue
  rw [hvalue]
  exact accounts_field metadata field

lemma isApart_take (source : Bag) (layout : PageLayout) (measure : PageMeasure) :
    ∀ notice ∈ (PageLayout.take source layout measure).notices, IsApart notice := by
  rw [PageLayout.take]
  cases Bag.int? source measure.name with
  | none => exact List.forall_mem_nil _
  | some length =>
    dsimp only
    split
    · exact List.forall_mem_nil _
    · exact List.forall_mem_singleton.2 (isApart_simplified (by decide) (by decide))

lemma isApart_composeLayout (doc : Document) (options : WriteOptions) :
    ∀ notice ∈ (composeLayout doc options).notices, IsApart notice := by
  rw [composeLayout]
  split
  · exact Noted.forall_mem_foldlM (isApart_take _) _ _
  · exact List.forall_mem_nil _

theorem stores_composeDocument (doc : Document) (options : WriteOptions) (configure : Bool)
    (tables : Option String) :
    Stores doc.content.walk Composition.texts (composeDocument doc options configure tables)
      (sourceTexts doc) := by
  have hblocks := stores_composeBlock doc tables .outermost doc.content
  have hrest := (stores_composeFootnotes (footnoteNodes doc)).append
    (stores_composeCore doc.metadata).returned
  have hall := (hblocks.append hrest).notingAll (isApart_composeLayout doc options)
  exact hall.within (by simp)

/-- Some character of a text is left out. -/
def Loses (doc : Document) : Prop :=
  ∃ source ∈ sourceTexts doc, allowedText source.text ≠ source.text

instance (doc : Document) : Decidable (Loses doc) :=
  inferInstanceAs (Decidable (∃ source ∈ sourceTexts doc, _))

/-- The loss that is reported of removed characters. -/
def reportsRemoval (warning : Warning) : Bool := warning.loss = .simplified "control characters"

/-- The texts of a document are stored without forbidden characters, and with all others. It is
reported once when characters were removed, and else not. -/
structure Cleans (doc : Document) (outcome : Outcome Composition) : Prop where
  stored : outcome.value.texts.Perm (stored (sourceTexts doc))
  allowed : ∀ kept ∈ outcome.value.texts, ∀ c ∈ kept.text.toList, Markup.isAllowed c = true
  warned : outcome.warnings.count removedNotice.warning = if Loses doc then 1 else 0
  /-- A node of an unknown kind with the name of the loss is reported as that loss, too. -/
  reported : (∀ node ∈ doc.content.walk, node.kind.name ≠ "control characters") →
    outcome.warnings.countP reportsRemoval = if Loses doc then 1 else 0

lemma isStorable_eq_false_iff {text : String} :
    isStorable text = false ↔ allowedText text ≠ text := by
  rw [← Bool.not_eq_true, not_iff_not]
  exact ⟨allowedText_of_isStorable, fun h => h ▸ isStorable_allowedText text⟩

/-- What is stored holds allowed characters only. -/
lemma isAllowed_of_mem_stored {sources : List PackageText} {kept : PackageText}
    (h : kept ∈ stored sources) : ∀ c ∈ kept.text.toList, Markup.isAllowed c = true := by
  obtain ⟨source, -, rfl⟩ := List.mem_map.1 (List.mem_filter.1 h).1
  intro c hc
  obtain ⟨place, text⟩ := source
  cases place with
  | run =>
    simp only [PackageText.cleaned, PackageText.laid, String.toList_ofList, List.mem_map] at hc
    obtain ⟨own, hown, rfl⟩ := hc
    split
    · decide
    · exact isAllowed_of_mem_allowedText hown
  | core field =>
    simp only [PackageText.cleaned, PackageText.laid, String.toList_ofList] at hc
    exact isAllowed_of_mem_allowedText (List.mem_of_mem_take hc)
  | _ => exact isAllowed_of_mem_allowedText hc

lemma warning_ofUnknown_ne (node : Node) :
    (Notice.ofUnknown node).warning ≠ removedNotice.warning := by
  intro h
  have hmessage := congrArg (fun w : Warning => w.message.toList.head?) h
  revert hmessage
  unfold Notice.ofUnknown
  dsimp only [Notice.once]
  split <;> simp [Warning.featureLost, Warning.simplified, removedNotice, Notice.once]

/-- Warnings that only the removal of characters can bring about, and not one of the nodes. -/
lemma Accounts.countP_settle {nodes : List Node} {kept sources : List PackageText}
    {notices : List Notice} (h : Accounts nodes kept notices sources) {p : Warning → Bool}
    (hp : p removedNotice.warning = true)
    (hloss : ∀ warning, p warning = true → warning.loss = removedNotice.warning.loss)
    (hnodes : ∀ node ∈ nodes, p (Notice.ofUnknown node).warning = false) :
    (Notice.settle notices).countP p = if removedNotice ∈ notices then 1 else 0 := by
  have htopic : removedNotice.topic = some (.feature "control characters") := rfl
  refine Notice.countP_settle htopic hp fun other hother hsame => ?_
  rcases h.others other hother with hown | hapart | ⟨node, hnode, rfl⟩
  · exact hown
  · rcases hsame with hsame | hsame
    · exact absurd hsame hapart.topic
    · exact absurd (hloss _ hsame) hapart.loss
  · rcases hsame with hsame | hsame
    · cases hsame
    · rw [hnodes node hnode] at hsame
      cases hsame

theorem cleans_composeDocument (doc : Document) (options : WriteOptions) (configure : Bool)
    (tables : Option String) :
    Cleans doc (composeDocument doc options configure tables).outcome := by
  have haccounts := stores_composeDocument doc options configure tables
  set composed := composeDocument doc options configure tables
  have hloses : removedNotice ∈ composed.notices ↔ Loses doc := by
    rw [haccounts.noted]
    simp only [isStorable_eq_false_iff]
    rfl
  refine ⟨haccounts.stored, fun kept hkept => ?_, ?_, fun hkinds => ?_⟩
  · exact isAllowed_of_mem_stored (haccounts.stored.mem_iff.1 hkept)
  · have hwarned := haccounts.countP_settle (p := (· == removedNotice.warning))
      (beq_self_eq_true _) (fun warning h => congrArg Warning.loss (eq_of_beq h))
      fun node _ => beq_false_of_ne (warning_ofUnknown_ne node)
    simp only [hloses] at hwarned
    exact hwarned
  · have hreported := haccounts.countP_settle (p := reportsRemoval) rfl
      (fun warning h => of_decide_eq_true h) fun node hnode => ?_
    · simp only [hloses] at hreported
      exact hreported
    · refine decide_eq_false fun h => hkinds node hnode ?_
      rw [Layout.loss_ofUnknown] at h
      exact (Layout.fallbackLoss_eq_simplified_iff.1 h).2

/-- However a document is built up, its texts are stored without the characters that markup forbids
and with all others, where only a run has a line break for each carriage return. Removed characters
are reported by a single warning. Only a table style that cannot be used keeps a document from being
written. -/
theorem write_cleans (doc : Document) (options : WriteOptions) :
    (∃ outcome, write doc options = .ok outcome ∧ Cleans doc outcome) ∨
      ∃ fault, write doc options = .error (.options fault) ∧
        tableStyle ((Settings.merge writeSettings options.extra).getOr tableStyleName
          (.text standardTableStyle)) = .error fault := by
  unfold write
  dsimp only
  split
  · exact .inl ⟨_, rfl, cleans_composeDocument doc options _ _⟩
  · next fault hfault =>
    split
    · exact .inr ⟨fault, rfl, hfault⟩
    · exact .inl ⟨_, rfl, cleans_composeDocument doc options _ _⟩

example :
    let kind : Kind := ⟨"control characters", by decide⟩
    let doc := Document.ofContent (.document [.branch kind [.text "a\x01b"]])
    (write doc .standard).toOption.map (fun outcome => outcome.warnings.countP reportsRemoval) =
      some 2 := by
  decide +kernel

/-- A run has a line break where its text has a carriage return, which markup does not forbid. -/
theorem not_write_cleans_carriageReturn :
    let doc := Document.ofContent (.document [.paragraph [.text "a\rb"]])
    ∃ outcome, write doc .standard = .ok outcome ∧ ∃ kept ∈ outcome.value.texts,
      kept.place = .run ∧ ∀ source ∈ sourceTexts doc, kept.text ≠ allowedText source.text := by
  intro doc
  exact exists_write (by decide +kernel)

end Interchange.Word
