import Interchange.Proofs.Document.StyledText
import Interchange.Proofs.Layout.Keeping
import Interchange.Proofs.Number.Digits
import Interchange.Proofs.Word.Reach
import Interchange.Word.Library.Saving
import Interchange.Word.Writer

/-!
# References to footnotes

A reference in running text is written as the number of the footnote that its label stands for. The
definitions are found by their labels and, where they have none, by their numbers; all share one
table, in which a later definition takes the place of an earlier one.
-/
namespace Interchange.Word

def RunPart.footnote? : RunPart → Option ℕ
  | .footnote number => some number
  | _ => none

def Run.references (run : Run) : List ℕ := run.parts.filterMap RunPart.footnote?

def RunItem.references (item : RunItem) : List ℕ := item.runs.flatMap Run.references

def referencesOf (paragraphs : List Paragraph) : List ℕ :=
  paragraphs.flatMap fun p => p.items.flatMap RunItem.references

/-- The numbers of the footnotes that are referred to, in the order of the text. -/
def Composition.references (composition : Composition) : List ℕ :=
  referencesOf (paragraphsOfBlocks composition.blocks)

/-- The parts of a text are stretches of it, tabs and line breaks. -/
lemma forall_mem_ofChars {P : RunPart → Prop} (htext : ∀ content, P (.text content)) (htab : P .tab)
    (hbreak : P .lineBreak) (cs : List Char) : ∀ part ∈ RunPart.ofChars cs, P part := by
  induction cs with
  | nil => exact List.forall_mem_nil _
  | cons c cs ih =>
    rw [RunPart.ofChars]
    split
    · exact List.forall_mem_cons.2 ⟨htab, ih⟩
    · split
      · exact List.forall_mem_cons.2 ⟨hbreak, ih⟩
      · split
        · next content parts hcs =>
          rw [hcs] at ih
          exact List.forall_mem_cons.2 ⟨htext _, (List.forall_mem_cons.1 ih).2⟩
        · exact List.forall_mem_cons.2 ⟨htext _, ih⟩

lemma references_ofText (format : RunFormat) (text : String) :
    (Run.ofText format text).references = [] :=
  List.filterMap_eq_nil_iff.2
    (forall_mem_ofChars (P := fun part => part.footnote? = none) (fun _ => rfl) rfl rfl _)

lemma referencesOf_append (paragraphs others : List Paragraph) :
    referencesOf (paragraphs ++ others) = referencesOf paragraphs ++ referencesOf others :=
  List.flatMap_append

lemma paragraphsOfBlocks_append (blocks others : List Block) :
    paragraphsOfBlocks (blocks ++ others) =
      paragraphsOfBlocks blocks ++ paragraphsOfBlocks others := by
  induction blocks with
  | nil => rfl
  | cons block blocks ih =>
    rw [List.cons_append, paragraphsOfBlocks, ih, paragraphsOfBlocks, List.append_assoc]

lemma paragraphsOfCells_append (cells others : List (List Block)) :
    paragraphsOfCells (cells ++ others) = paragraphsOfCells cells ++ paragraphsOfCells others := by
  induction cells with
  | nil => rfl
  | cons cell cells ih =>
    rw [List.cons_append, paragraphsOfCells, ih, paragraphsOfCells, List.append_assoc]

def referenceLabel (reference : Node) : String := Bag.textOr reference.props Key.label

mutual

/-- The references in a line; only marks, spans, quotations and links are followed. -/
def citedInLine : Node → List Node
  | node@⟨kind, _, children, _⟩ =>
    match InlineRole.ofKind? kind with
    | some .footnoteRef => [node]
    | some (.mark _) => citedInLines children
    | some .span => citedInLines children
    | some .quoted => citedInLines children
    | some .link => citedInLines children
    | _ => []

def citedInLines : List Node → List Node
  | [] => []
  | node :: nodes => citedInLine node ++ citedInLines nodes

end

mutual

/-- The references in running text. Code, rules, the bodies of footnotes, tables directly in a cell
and nodes of an unknown kind are no running text, nor is an item outside of a list. -/
def cited (inList : Bool) : Node → List Node
  | node@⟨kind, _, children, _⟩ =>
    match BlockRole.ofKind kind with
    | .container => citedAmong false children
    | .quote => citedAmong false children
    | .paragraph => citedInLines children
    | .heading => citedInLines children
    | .list => citedAmong true children
    | .listItem => if inList then citedAmong false children else []
    | .table => citedInRows children
    | .inline => citedInLine node
    | _ => []

def citedAmong (inList : Bool) : List Node → List Node
  | [] => []
  | node :: nodes => cited inList node ++ citedAmong inList nodes

def citedInRows : List Node → List Node
  | [] => []
  | ⟨kind, _, cells, _⟩ :: nodes =>
    (if kind = .tableRow then citedInCells cells else []) ++ citedInRows nodes

def citedInCells : List Node → List Node
  | [] => []
  | ⟨_, _, children, _⟩ :: nodes => citedInCell children ++ citedInCells nodes

def citedInCell : List Node → List Node
  | [] => []
  | node :: nodes => (if node.kind = .table then [] else cited false node) ++ citedInCell nodes

end

/-- The references below some nodes, in the order of the document. -/
def refsAmong (nodes : List Node) : List Node :=
  (Node.walkAll nodes).filter (·.kind = .footnoteRef)

def refsOf (node : Node) : List Node := node.walk.filter (·.kind = .footnoteRef)

lemma refsAmong_cons (node : Node) (nodes : List Node) :
    refsAmong (node :: nodes) = refsOf node ++ refsAmong nodes := List.filter_append ..

lemma refsAmong_sublist (node : Node) : (refsAmong node.children).Sublist (refsOf node) := by
  rw [refsOf, Node.walk_eq]
  exact (List.sublist_cons_self _ _).filter _

lemma kind_of_footnoteRef {kind : Kind} (h : InlineRole.ofKind? kind = some .footnoteRef) :
    kind = .footnoteRef := by
  have honly : ∀ e ∈ InlineRole.assignments, e.2 = .footnoteRef → e.1 = .footnoteRef := by decide
  obtain ⟨⟨found, role⟩, hfind, rfl⟩ := Option.map_eq_some_iff.1 h
  have hkind : found = kind := by simpa using List.find?_some hfind
  exact hkind ▸ honly _ (List.mem_of_find?_eq_some hfind) rfl

mutual

theorem citedInLine_sublist : ∀ node : Node, (citedInLine node).Sublist (refsOf node)
  | ⟨kind, props, children, span⟩ => by
    have hinside := (citedInLines_sublist children).trans
      (refsAmong_sublist ⟨kind, props, children, span⟩)
    rw [citedInLine]
    generalize hrole : InlineRole.ofKind? kind = role
    cases role with
    | none => exact List.nil_sublist _
    | some role =>
      cases role with
      | mark | span | quoted | link => exact hinside
      | text | code | image | lineBreak | softBreak => exact List.nil_sublist _
      | footnoteRef =>
        have hkind := kind_of_footnoteRef hrole
        refine List.singleton_sublist.2 (List.mem_filter.2 ⟨?_, by simpa using hkind⟩)
        rw [Node.walk_eq]
        exact List.mem_cons_self

theorem citedInLines_sublist : ∀ nodes : List Node,
    (citedInLines nodes).Sublist (refsAmong nodes)
  | [] => List.nil_sublist _
  | node :: nodes => by
    rw [citedInLines, refsAmong_cons]
    exact (citedInLine_sublist node).append (citedInLines_sublist nodes)

end

mutual

/-- The references in running text are references of the document, in its order. -/
theorem cited_sublist (inList : Bool) : ∀ node : Node, (cited inList node).Sublist (refsOf node)
  | ⟨kind, props, children, span⟩ => by
    have hinside {references : List Node} (h : references.Sublist (refsAmong children)) :=
      h.trans (refsAmong_sublist ⟨kind, props, children, span⟩)
    rw [cited]
    generalize BlockRole.ofKind kind = role
    cases role with
    | container | quote => exact hinside (citedAmong_sublist false children)
    | paragraph | heading => exact hinside (citedInLines_sublist children)
    | list => exact hinside (citedAmong_sublist true children)
    | listItem =>
      cases inList with
      | false => exact List.nil_sublist _
      | true => exact hinside (citedAmong_sublist false children)
    | table => exact hinside (citedInRows_sublist children)
    | inline => exact citedInLine_sublist ⟨kind, props, children, span⟩
    | codeBlock | rule | footnoteDef | unknown => exact List.nil_sublist _

theorem citedAmong_sublist (inList : Bool) : ∀ nodes : List Node,
    (citedAmong inList nodes).Sublist (refsAmong nodes)
  | [] => List.nil_sublist _
  | node :: nodes => by
    rw [citedAmong, refsAmong_cons]
    exact (cited_sublist inList node).append (citedAmong_sublist inList nodes)

theorem citedInRows_sublist : ∀ nodes : List Node, (citedInRows nodes).Sublist (refsAmong nodes)
  | [] => List.nil_sublist _
  | ⟨kind, props, cells, span⟩ :: nodes => by
    rw [citedInRows, refsAmong_cons]
    refine List.Sublist.append ?_ (citedInRows_sublist nodes)
    split
    · exact (citedInCells_sublist cells).trans (refsAmong_sublist ⟨kind, props, cells, span⟩)
    · exact List.nil_sublist _

theorem citedInCells_sublist : ∀ nodes : List Node, (citedInCells nodes).Sublist (refsAmong nodes)
  | [] => List.nil_sublist _
  | ⟨kind, props, children, span⟩ :: nodes => by
    rw [citedInCells, refsAmong_cons]
    exact ((citedInCell_sublist children).trans
      (refsAmong_sublist ⟨kind, props, children, span⟩)).append (citedInCells_sublist nodes)

theorem citedInCell_sublist : ∀ nodes : List Node, (citedInCell nodes).Sublist (refsAmong nodes)
  | [] => List.nil_sublist _
  | node :: nodes => by
    rw [citedInCell, refsAmong_cons]
    refine List.Sublist.append ?_ (citedInCell_sublist nodes)
    split
    · exact List.nil_sublist _
    · exact cited_sublist false node

end

/-- The pieces of a line have the references of some nodes, by number and in their order; where text
is held together in a link there are none. -/
structure Cites (setting : Setting) (pieces : List Placed) (references : List Node) : Prop where
  held : ∀ run, .held run ∈ pieces → run.references = []
  numbers : pieces.flatMap (fun piece => piece.item.references) =
    references.filterMap fun reference => setting.number? (referenceLabel reference)

namespace Cites

variable {setting : Setting} {pieces others : List Placed} {references : List Node}

lemma nil : Cites setting [] [] := ⟨nofun, rfl⟩

lemma append {more : List Node} (h : Cites setting pieces references)
    (h' : Cites setting others more) : Cites setting (pieces ++ others) (references ++ more) := by
  refine ⟨fun run hrun => ?_, ?_⟩
  · rcases List.mem_append.1 hrun with hrun | hrun
    · exact h.held run hrun
    · exact h'.held run hrun
  · rw [List.flatMap_append, h.numbers, h'.numbers, List.filterMap_append]

lemma heldRun (format : RunFormat) (text : String) :
    Cites setting (heldRun format text).value [] := by
  have hnone : (Run.ofText format (allowedText text)).references = [] := references_ofText _ _
  refine ⟨fun run hrun => ?_, ?_⟩
  · rw [Placed.held.inj (List.mem_singleton.1 hrun)]
    exact hnone
  · simpa [Word.heldRun, Placed.item, RunItem.references, RunItem.runs] using hnone

lemma looseText (text : String) :
    Cites setting (looseRun <$> composeRun .plain text : Noted (List Placed)).value [] := by
  have hnone : (Run.ofText .plain (allowedText text)).references = [] := references_ofText _ _
  refine ⟨fun run hrun => ?_, ?_⟩
  · cases List.mem_singleton.1 hrun
  · simpa [looseRun, Placed.item, RunItem.references, RunItem.runs] using hnone

lemma loosened (h : Cites setting pieces references) :
    Cites setting (pieces.map fun piece => .loose piece.item) references := by
  refine ⟨fun run hrun => ?_, ?_⟩
  · obtain ⟨piece, -, hpiece⟩ := List.mem_map.1 hrun
    cases hpiece
  · rw [List.flatMap_map]
    exact h.numbers

/-- References leave a link, and follow it in their order. -/
lemma linkAround (h : Cites setting pieces references) (url : String) :
    Cites setting (linkAround url pieces) references := by
  have hlink : (RunItem.link url (pieces.filterMap Placed.held?)).references = [] := by
    refine List.flatMap_eq_nil_iff.2 fun run hrun => ?_
    obtain ⟨piece, hpiece, hheld⟩ := List.mem_filterMap.1 hrun
    cases piece with
    | held own => exact Option.some.inj hheld ▸ h.held own hpiece
    | loose item => cases hheld
  have hloose : (pieces.filterMap Placed.loose?).flatMap RunItem.references =
      pieces.flatMap fun piece => piece.item.references := by
    have hheld := h.held
    clear h hlink
    induction pieces with
    | nil => rfl
    | cons piece pieces ih =>
      have hrest := ih fun run hrun => hheld run (List.mem_cons_of_mem _ hrun)
      cases piece with
      | held run =>
        have hnone : (Placed.held run).item.references = [] := by
          simp [Placed.item, RunItem.references, RunItem.runs, hheld run List.mem_cons_self]
        rw [List.flatMap_cons, hnone, ← hrest]
        rfl
      | loose item =>
        rw [List.flatMap_cons, ← hrest]
        rfl
  refine ⟨fun run hrun => ?_, ?_⟩
  · rcases List.mem_cons.1 hrun with hrun | hrun
    · cases hrun
    · obtain ⟨item, -, hitem⟩ := List.mem_map.1 hrun
      cases hitem
  · rw [Word.linkAround, List.flatMap_cons, List.flatMap_map, ← h.numbers, ← hloose]
    change (RunItem.link url (pieces.filterMap Placed.held?)).references ++ _ = _
    rw [hlink]
    rfl

end Cites

section Lines

variable (setting : Setting)

lemma cites_composeUnknown (format : RunFormat) (node : Node) :
    Cites setting (composeUnknown format node).value [] := by
  rw [composeUnknown, Noted.bind_value]
  split
  · exact .nil
  · exact .heldRun _ _

lemma cites_composePicture (props : Bag) :
    Cites setting (composePicture setting props).value [] := by
  unfold composePicture
  dsimp only
  split
  · exact .looseText _
  · split
    · exact .looseText _
    · split
      · exact .looseText _
      · refine ⟨fun run hrun => ?_, rfl⟩
        cases List.mem_singleton.1 hrun

lemma cites_composeReference (node : Node) :
    Cites setting (composeReference setting node.props).value [node] := by
  unfold composeReference
  dsimp only
  split
  · next number hnumber =>
    have hlabel : setting.number? (referenceLabel node) = some number := hnumber
    refine ⟨fun run hrun => ?_, ?_⟩
    · cases List.mem_singleton.1 hrun
    · rw [List.filterMap_cons, hlabel]
      rfl
  · next hnumber =>
    have hlabel : setting.number? (referenceLabel node) = none := hnumber
    have htext : Cites setting _ [] :=
      Cites.looseText ("[" ++ Bag.textOr node.props Key.label ++ "]")
    refine ⟨htext.held, ?_⟩
    rw [List.filterMap_cons, hlabel]
    exact htext.numbers

mutual

/-- The cases are the roles of a node in a line. -/
theorem cites_compose (format : RunFormat) : ∀ node : Node,
    Cites setting (compose setting format node).value (citedInLine node)
  | ⟨kind, props, children, span⟩ => by
    rw [compose, citedInLine]
    generalize InlineRole.ofKind? kind = role
    cases role with
    | none => exact cites_composeUnknown setting format _
    | some role =>
      cases role with
      | text => exact .heldRun _ _
      | code => exact .heldRun _ _
      | mark mark => exact cites_composeAll _ children
      | span => exact cites_composeAll _ children
      | quoted =>
        have hinside := cites_composeAll format children
        have hquoted := ((Cites.heldRun format "“").append hinside).append (.heldRun format "”")
        rwa [List.nil_append, List.append_nil] at hquoted
      | link =>
        have hinside := cites_composeAll format children
        dsimp only
        split
        · exact hinside.loosened
        · rw [composeLink]
          split
          · next hbare =>
            have hnone : children = [] := List.isEmpty_iff.1 hbare
            rw [hnone]
            exact (Cites.heldRun format _).linkAround _
          · exact hinside.linkAround _
      | image => exact cites_composePicture setting props
      | lineBreak => exact .heldRun _ _
      | softBreak => exact .heldRun _ _
      | footnoteRef => exact cites_composeReference setting ⟨kind, props, children, span⟩

theorem cites_composeAll (format : RunFormat) : ∀ nodes : List Node,
    Cites setting (composeAll setting format nodes).value (citedInLines nodes)
  | [] => .nil
  | node :: nodes => (cites_compose format node).append (cites_composeAll format nodes)

end

end Lines

section Blocks

variable (setting : Setting)

/-- Paragraphs have the references of some nodes, by number and in their order. -/
def CitesAll (paragraphs : List Paragraph) (references : List Node) : Prop :=
  referencesOf paragraphs =
    references.filterMap fun reference => setting.number? (referenceLabel reference)

variable {setting}

lemma CitesAll.append {paragraphs others : List Paragraph} {references more : List Node}
    (h : CitesAll setting paragraphs references) (h' : CitesAll setting others more) :
    CitesAll setting (paragraphs ++ others) (references ++ more) := by
  rw [CitesAll, referencesOf_append, h, h', List.filterMap_append]

lemma citesAll_nil : CitesAll setting [] [] := rfl

variable (setting)

lemma citesAll_composeParagraph (style : Option String) (alignment : Option Alignment)
    (children : List Node) :
    CitesAll setting (paragraphsOfBlocks (composeParagraph setting style alignment children).value)
      (citedInLines children) := by
  have hline := (cites_composeAll setting .plain children).numbers
  rw [CitesAll, ← hline]
  simp [composeParagraph, composeItems, referencesOf, paragraphsOfBlocks, Block.paragraphs,
    List.flatMap_map]

lemma citesAll_composeOwnParagraph (spot : Spot) (kind : Kind) (props : Bag)
    (children : List Node) :
    CitesAll setting
      (paragraphsOfBlocks (composeOwnParagraph setting spot kind props children).value)
      (citedInLines children) := by
  rw [composeOwnParagraph]
  split
  · split <;> exact citesAll_composeParagraph setting _ _ _
  · exact citesAll_composeParagraph setting _ _ _

/-- A paragraph of a single run of text has no references. -/
lemma citesAll_run (style : Option String) (alignment : Option Alignment) (format : RunFormat)
    (text : String) : CitesAll setting
      (paragraphsOfBlocks [.paragraph ⟨style, alignment, [.run (.ofText format text)]⟩]) [] := by
  have hnone := references_ofText format text
  simpa [CitesAll, referencesOf, paragraphsOfBlocks, Block.paragraphs, RunItem.references,
    RunItem.runs] using hnone

lemma citesAll_composeText (text : String) :
    CitesAll setting (paragraphsOfBlocks (composeText text).value) [] := by
  change CitesAll setting (paragraphsOfBlocks [.paragraph (.ofText (allowedText text))]) []
  rw [Paragraph.ofText]
  split
  · rfl
  · exact citesAll_run setting none none _ _

lemma citesAll_composeUnknownBlock (node : Node) :
    CitesAll setting (paragraphsOfBlocks (composeUnknownBlock node).value) [] := by
  rw [composeUnknownBlock, Noted.bind_value]
  split
  · rfl
  · exact citesAll_composeText setting _

lemma citesAll_composeRule (spot : Spot) (props : Bag) :
    CitesAll setting (paragraphsOfBlocks (composeRule spot props).value) [] := by
  rw [composeRule]
  split
  · rfl
  · exact citesAll_run setting none (some .center) _ _

lemma referencesOf_padRow (width : ℕ) (cells : List (List Block)) :
    referencesOf (paragraphsOfCells (padRow width cells)) =
      referencesOf (paragraphsOfCells cells) := by
  have hempty (n : ℕ) :
      referencesOf (paragraphsOfCells (List.replicate n [.paragraph .empty])) = [] := by
    induction n with
    | zero => rfl
    | succ n ih =>
      rw [List.replicate_succ, paragraphsOfCells, referencesOf_append, ih]
      rfl
  rw [padRow, paragraphsOfCells_append, referencesOf_append, hempty, List.append_nil]

/-- A node of a line is one as a block, too. -/
lemma ofKind_of_isInline {node : Node} (h : isInline node = true) :
    BlockRole.ofKind node.kind = .inline := by
  have hapart : ∀ e ∈ BlockRole.assignments, (InlineRole.ofKind? e.1).isSome = false := by decide
  rw [BlockRole.ofKind]
  split
  · next kind role hfound =>
    have hkind : kind = node.kind := by simpa using List.find?_some hfound
    have hnone := hapart (kind, role) (List.mem_of_find?_eq_some hfound)
    rw [hkind] at hnone
    rw [isInline, hnone] at h
    cases h
  · rw [isInline] at h
    rw [if_pos h]

lemma kind_ne_table_of_isInline {node : Node} (h : isInline node = true) : node.kind ≠ .table := by
  intro hkind
  have hrole := ofKind_of_isInline h
  rw [hkind] at hrole
  revert hrole
  decide

lemma citedInCell_of_isInline {nodes : List Node} (h : nodes.all isInline = true) :
    citedInCell nodes = citedInLines nodes := by
  induction nodes with
  | nil => rfl
  | cons node nodes ih =>
    rw [List.all_cons, Bool.and_eq_true] at h
    have hrole := ofKind_of_isInline h.1
    have htable := kind_ne_table_of_isInline h.1
    obtain ⟨kind, props, children, span⟩ := node
    have hkind : BlockRole.ofKind kind = .inline := hrole
    rw [citedInCell, citedInLines, if_neg htable, ih h.2, cited, hkind]

/-- What a block in a cell, behind its first paragraph, comes to. -/
def cellBlock (node : Node) : Noted (List Block) :=
  if node.kind = .table then composeNestedTable node else composeBlock setting .inTableCell node

lemma composeCellBlocks_cons (node : Node) (nodes : List Node) :
    (composeCellBlocks setting (node :: nodes)).value =
      (cellBlock setting node).value ++ (composeCellBlocks setting nodes).value := by
  rw [composeCellBlocks, cellBlock]
  split <;> rfl

/-- A cell that begins neither with a line nor with a paragraph has an empty paragraph in front. -/
lemma composeCell_of_block {node : Node} {nodes : List Node}
    (hline : (node :: nodes).all isInline = false) (hkind : node.kind ≠ .paragraph) :
    (composeCell setting (node :: nodes)).value =
      .paragraph .empty :: (composeCellBlocks setting (node :: nodes)).value := by
  rw [composeCell, hline, if_neg Bool.false_ne_true, if_neg hkind, composeCellBlocks_cons,
    cellBlock]
  split <;> rfl

/-- The rows of a table without cells are empty. -/
lemma children_of_tableWidth {nodes : List Node} (h : tableWidth nodes = 0) :
    ∀ node ∈ nodes, node.kind = .tableRow → node.children = [] := by
  intro node hnode hkind
  have hmem : node ∈ nodes.filter (·.kind = .tableRow) :=
    List.mem_filter.2 ⟨hnode, by simpa using hkind⟩
  have hle : node.children.length ≤ tableWidth nodes :=
    Layout.le_foldl_max (.inr (List.mem_map.2 ⟨node, hmem, rfl⟩))
  rw [h] at hle
  exact List.length_eq_zero_iff.1 (Nat.le_zero.1 hle)

/-- A table without cells has no references. -/
lemma citedInRows_of_tableWidth {nodes : List Node} (h : tableWidth nodes = 0) :
    citedInRows nodes = [] := by
  have hrows := children_of_tableWidth h
  clear h
  induction nodes with
  | nil => rfl
  | cons node nodes ih =>
    obtain ⟨hnode, hrest⟩ := List.forall_mem_cons.1 hrows
    obtain ⟨kind, props, children, span⟩ := node
    rw [citedInRows, ih hrest, List.append_nil]
    split
    · next hkind =>
      have hnone : children = [] := hnode hkind
      rw [hnone]
      rfl
    · rfl

mutual

/-- The cases are the roles of a block. -/
theorem citesAll_composeBlock (spot : Spot) : ∀ node : Node,
    CitesAll setting (paragraphsOfBlocks (composeBlock setting spot node).value)
      (cited spot.inList node)
  | ⟨kind, props, children, span⟩ => by
    rw [composeBlock, cited]
    generalize hrole : BlockRole.ofKind kind = role
    cases role with
    | container => exact citesAll_composeBlocks spot.within children
    | paragraph => exact citesAll_composeOwnParagraph setting spot kind props children
    | heading => exact citesAll_composeParagraph setting _ _ children
    | codeBlock => exact citesAll_run setting none none _ _
    | quote => exact citesAll_composeBlocks spot.quoted children
    | list => exact citesAll_composeBlocks (spot.list (Bag.isOn props Key.ordered)) children
    | listItem =>
      dsimp only
      split
      · exact citesAll_composeBlocks spot.item children
      · exact citesAll_composeUnknownBlock setting _
    | table =>
      dsimp only
      split
      · next hwidth =>
        rw [citedInRows_of_tableWidth hwidth]
        exact citesAll_nil
      · have hrows := citesAll_composeRows (tableWidth children) children
        rw [Noted.bind_value, Noted.bind_value, Noted.pure_value, tableBlocks, paragraphsOfBlocks,
          Block.paragraphs, CitesAll, referencesOf_append, hrows]
        cases spot.inCell <;> exact List.append_nil _
    | rule => exact citesAll_composeRule setting spot props
    | footnoteDef => exact citesAll_nil
    | inline =>
      have hline := citesAll_composeParagraph setting spot.lineStyle none
        [⟨kind, props, children, span⟩]
      rwa [citedInLines, citedInLines, List.append_nil] at hline
    | unknown => exact citesAll_composeUnknownBlock setting _

theorem citesAll_composeBlocks (spot : Spot) : ∀ nodes : List Node,
    CitesAll setting (paragraphsOfBlocks (composeBlocks setting spot nodes).value)
      (citedAmong spot.inList nodes)
  | [] => citesAll_nil
  | node :: nodes => by
    rw [composeBlocks, Noted.bind_value, Noted.bind_value, Noted.pure_value,
      paragraphsOfBlocks_append]
    exact (citesAll_composeBlock spot node).append (citesAll_composeBlocks spot nodes)

theorem citesAll_composeRows (width : ℕ) : ∀ nodes : List Node,
    CitesAll setting (paragraphsOfRows (composeRows setting width nodes).value) (citedInRows nodes)
  | [] => citesAll_nil
  | ⟨kind, _, cells, _⟩ :: nodes => by
    have hrest := citesAll_composeRows width nodes
    rw [composeRows, citedInRows]
    by_cases hkind : kind = .tableRow
    · have hcells := citesAll_composeCells cells
      simp only [hkind, if_true, Noted.bind_value, Noted.pure_value]
      rw [paragraphsOfRows]
      refine CitesAll.append ?_ hrest
      rw [CitesAll, referencesOf_padRow]
      exact hcells
    · simp only [hkind, if_false, Noted.bind_value, Noted.pure_value]
      exact hrest

theorem citesAll_composeCells : ∀ nodes : List Node,
    CitesAll setting (paragraphsOfCells (composeCells setting nodes).value) (citedInCells nodes)
  | [] => citesAll_nil
  | ⟨_, _, children, _⟩ :: nodes => by
    rw [composeCells, Noted.bind_value, Noted.bind_value, Noted.pure_value, paragraphsOfCells]
    exact (citesAll_composeCell children).append (citesAll_composeCells nodes)

theorem citesAll_composeCell : ∀ nodes : List Node,
    CitesAll setting (paragraphsOfBlocks (composeCell setting nodes).value) (citedInCell nodes)
  | [] => rfl
  | node :: nodes => by
    by_cases hline : (node :: nodes).all isInline = true
    · rw [composeCell, if_pos hline, citedInCell_of_isInline hline]
      exact citesAll_composeParagraph setting _ _ _
    by_cases hkind : node.kind = .paragraph
    · have hfirst := citesAll_composeParagraph setting none none node.children
      have hown : (if node.kind = .table then [] else cited false node) =
          citedInLines node.children := by
        obtain ⟨kind, props, children, span⟩ := node
        obtain rfl : kind = .paragraph := hkind
        rfl
      rw [composeCell, if_neg hline, if_pos hkind, Noted.bind_value, Noted.bind_value,
        Noted.pure_value, paragraphsOfBlocks_append, citedInCell, hown]
      exact hfirst.append (citesAll_composeCellBlocks nodes)
    · rw [composeCell_of_block setting (Bool.eq_false_iff.2 hline) hkind]
      exact citesAll_composeCellBlocks (node :: nodes)

theorem citesAll_composeCellBlocks : ∀ nodes : List Node,
    CitesAll setting (paragraphsOfBlocks (composeCellBlocks setting nodes).value)
      (citedInCell nodes)
  | [] => citesAll_nil
  | node :: nodes => by
    rw [composeCellBlocks_cons, citedInCell, paragraphsOfBlocks_append, cellBlock]
    refine CitesAll.append ?_ (citesAll_composeCellBlocks nodes)
    split
    · exact citesAll_composeText setting _
    · exact citesAll_composeBlock .inTableCell node

end

end Blocks

end Interchange.Word
