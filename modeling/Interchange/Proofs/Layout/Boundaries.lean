import Interchange.Proofs.Layout.Orderly
import Interchange.Proofs.Transform.Merging

/-!
# Where a text is divided makes no difference to a layout

Pieces of text in a row are put one after the other in a line, and among blocks they are put in one
run, so a layout does not show where one of them ends and the next begins. Merged pieces are laid
out as they were, and the nodes around them say what they said. Only the parts of a list, which are
items, and those of a table, which are rows of cells, must not be pieces of text.
-/
namespace Interchange.Layout

open Node (mergeAdjacent mergeRun mergeTextAll)

/-- Two sequences of parts that give the same line and, after any run, the same blocks. -/
structure Interchangeable (parts others : List Rendered) : Prop where
  line : inlineText parts = inlineText others
  blocks : ∀ run, flowFrom run parts = flowFrom run others

namespace Interchangeable

variable {parts others third : List Rendered}

lemma refl (parts : List Rendered) : Interchangeable parts parts := ⟨rfl, fun _ => rfl⟩

lemma trans (h : Interchangeable parts others) (h' : Interchangeable others third) :
    Interchangeable parts third :=
  ⟨h.line.trans h'.line, fun run => (h.blocks run).trans (h'.blocks run)⟩

lemma cons (part : Rendered) (h : Interchangeable parts others) :
    Interchangeable (part :: parts) (part :: others) := by
  refine ⟨congrArg (part.toPiece ++ ·) h.line, fun run => ?_⟩
  cases part with
  | piece text => exact h.blocks (run ++ text)
  | blocks bs => rw [flowFrom, flowFrom, h.blocks []]

/-- Two pieces side by side are one. -/
lemma join (text next : Chars) (parts : List Rendered) :
    Interchangeable (.piece (text ++ next) :: parts) (.piece text :: .piece next :: parts) := by
  refine ⟨List.append_assoc .., fun run => ?_⟩
  rw [flowFrom, flowFrom, flowFrom, List.append_assoc]

lemma flow (h : Interchangeable parts others) : flow parts = flow others := h.blocks []

end Interchangeable

lemma render_of_text {node : Node} (setting : Setting) (h : node.kind = .text) :
    render setting node = .piece (Bag.textOr node.props Key.content).toList := by
  obtain ⟨kind, props, children, span⟩ := node
  obtain rfl : kind = .text := h
  rfl

lemma reached_of_text {node : Node} (inList : Bool) (h : node.kind = .text) :
    reached inList node = [(inList, node)] := by
  obtain ⟨kind, props, children, span⟩ := node
  obtain rfl : kind = .text := h
  rfl

/-- What is merged is laid out as one piece after the other. -/
lemma render_merge (setting : Setting) {left right : Node} (h : Node.Alike left right) :
    ∃ text next, render setting left = .piece text ∧ render setting right = .piece next ∧
      render setting (Node.merge left right) = .piece (text ++ next) := by
  obtain ⟨hleft, hright, -⟩ := h
  have hmerged : (Node.merge left right).kind = .text := hleft
  refine ⟨_, _, render_of_text setting hleft, render_of_text setting hright, ?_⟩
  rw [render_of_text setting hmerged, ← String.toList_append]
  exact congrArg (Rendered.piece ·.toList) (Node.textOr_insertText left.props Key.content _)

/-- The induction is on the nodes behind the one that others are merged into. -/
lemma interchangeable_mergeRun (setting : Setting) (last : Node) (nodes : List Node) :
    Interchangeable (renderAll setting (mergeRun last nodes))
      (renderAll setting (last :: nodes)) := by
  induction nodes generalizing last with
  | nil => exact .refl _
  | cons node nodes ih =>
    rw [mergeRun]
    split
    · next hmerge =>
      obtain ⟨text, next, hlast, hnode, hmerged⟩ :=
        render_merge setting (Node.canMerge_iff.1 hmerge)
      have hrun := ih (Node.merge last node)
      rw [renderAll, hmerged] at hrun
      rw [renderAll, renderAll, hlast, hnode]
      exact hrun.trans (.join text next _)
    · rw [renderAll, renderAll]
      exact (ih node).cons _

theorem interchangeable_mergeAdjacent (setting : Setting) (nodes : List Node) :
    Interchangeable (renderAll setting (mergeAdjacent nodes)) (renderAll setting nodes) := by
  cases nodes with
  | nil => exact .refl _
  | cons node nodes => exact interchangeable_mergeRun setting node nodes

/-- Nodes of another kind than text are left apart. -/
lemma mergeAdjacent_of_kind {kind : Kind} (hkind : kind ≠ .text) {nodes : List Node}
    (h : ∀ node ∈ nodes, node.kind = kind) :
    mergeAdjacent (mergeTextAll nodes) = mergeTextAll nodes := by
  refine Node.mergeAdjacent_of_noneAlike (List.Pairwise.isChain ?_)
  rw [Node.mergeTextAll_eq_map, List.pairwise_map]
  refine List.pairwise_of_forall_mem_list fun left hleft _ _ halike => hkind ?_
  rw [← h left hleft, ← halike.1, Node.mergeText_kind]

/-- A node that has parts of the kind that a layout expects of it: none in text, items in a list,
and rows of cells in a table. -/
structure HasOwnParts (node : Node) : Prop where
  leaf : node.kind = .text → node.children = []
  items : node.kind = .list → ∀ item ∈ node.children, item.kind = .listItem
  rows : node.kind = .table → ∀ row ∈ node.children,
    row.kind = .tableRow ∧ ∀ cell ∈ row.children, cell.kind = .tableCell

instance (node : Node) : Decidable (HasOwnParts node) :=
  decidable_of_iff
    ((node.kind = .text → node.children = []) ∧
      (node.kind = .list → ∀ item ∈ node.children, item.kind = .listItem) ∧
      (node.kind = .table → ∀ row ∈ node.children,
        row.kind = .tableRow ∧ ∀ cell ∈ row.children, cell.kind = .tableCell))
    ⟨fun ⟨leaf, items, rows⟩ => ⟨leaf, items, rows⟩, fun h => ⟨h.leaf, h.items, h.rows⟩⟩

/-- Every node of the tree has parts of its own kind. -/
def IsRegular (node : Node) : Prop := ∀ part ∈ node.walk, HasOwnParts part

instance (node : Node) : Decidable (IsRegular node) :=
  inferInstanceAs (Decidable (∀ part ∈ node.walk, HasOwnParts part))

variable {node : Node} {medium : Medium}

lemma isRegular_iff : IsRegular node ↔ HasOwnParts node ∧ ∀ part ∈ node.children, IsRegular part :=
  Node.forall_mem_walk_iff

lemma IsRegular.hasTextLeaves (h : IsRegular node) : node.HasTextLeaves :=
  fun part hpart => (h part hpart).leaf

lemma plainText_mergeText (h : node.HasTextLeaves) : node.mergeText.plainText = node.plainText := by
  rw [Node.plainText, Node.plainText, Node.mergeText_props, (Node.saysSame_mergeText node h).text]

lemma mathText_mergeText (h : node.HasTextLeaves) : mathText node.mergeText = mathText node := by
  rw [mathText, mathText, Node.mergeText_props, plainText_mergeText h]

lemma ownNotices_mergeText (medium : Medium) (inList : Bool) (h : node.HasTextLeaves) :
    ownNotices medium inList node.mergeText = ownNotices medium inList node := by
  have hunknown : Notice.ofUnknown node.mergeText = Notice.ofUnknown node := by
    rw [Notice.ofUnknown, Notice.ofUnknown, Node.mergeText_kind, plainText_mergeText h]
  rw [ownNotices, ownNotices, Node.mergeText_kind, Node.mergeText_props, hunknown]

/-- A table is laid out from the texts of its cells. -/
lemma tableBlock_congr {separator : Chars} {rows others : List (List (List Rendered))}
    (h : rows.map (·.map cellText) = others.map (·.map cellText)) :
    tableBlock separator rows = tableBlock separator others := by
  have hempty : rows.isEmpty = others.isEmpty := by
    rw [← List.isEmpty_map, h, List.isEmpty_map]
  rw [tableBlock, tableBlock, hempty, h]

mutual

theorem render_mergeText (setting : Setting) : ∀ node : Node, IsRegular node →
    render setting node.mergeText = render setting node
  | ⟨kind, props, children, span⟩, h => by
    obtain ⟨hown, hparts⟩ := isRegular_iff.1 h
    have hplain := plainText_mergeText h.hasTextLeaves
    have hmath := mathText_mergeText h.hasTextLeaves
    have hall (inner : Setting) := renderAll_mergeTextAll inner children hparts
    have halike (inner : Setting) : Interchangeable
        (renderAll inner (mergeAdjacent (mergeTextAll children))) (renderAll inner children) := by
      rw [← hall inner]
      exact interchangeable_mergeAdjacent inner (mergeTextAll children)
    have hline (inner : Setting) := (halike inner).line
    have hflow (inner : Setting) := (halike inner).flow
    have hitems (inner : Setting) (hlist : roleOf kind = .list) :
        renderAll inner (mergeAdjacent (mergeTextAll children)) = renderAll inner children := by
      rw [mergeAdjacent_of_kind (by decide) (hown.items (kind_of_list hlist)), hall]
    have hrows (inner : Setting) (htable : roleOf kind = .table) :
        tableBlock setting.separator (renderRows inner (mergeAdjacent (mergeTextAll children))) =
          tableBlock setting.separator (renderRows inner children) := by
      have hcells := hown.rows (kind_of_table htable)
      rw [mergeAdjacent_of_kind (by decide) fun row hrow => (hcells row hrow).1]
      exact tableBlock_congr (renderRows_mergeTextAll inner children hcells hparts)
    rw [Node.mergeText] at hplain hmath ⊢
    rw [render, render]
    dsimp only
    cases hrole : roleOf kind with
    | list => rw [hitems _ hrole]
    | table => rw [hrows _ hrole]
    | _ => simp only [hline, hflow, hplain, hmath]

theorem renderAll_mergeTextAll (setting : Setting) : ∀ nodes : List Node,
    (∀ node ∈ nodes, IsRegular node) →
      renderAll setting (mergeTextAll nodes) = renderAll setting nodes
  | [], _ => rfl
  | node :: nodes, h => by
    obtain ⟨hnode, hnodes⟩ := List.forall_mem_cons.1 h
    rw [mergeTextAll, renderAll, renderAll, render_mergeText setting node hnode,
      renderAll_mergeTextAll setting nodes hnodes]

theorem renderRows_mergeTextAll (setting : Setting) : ∀ rows : List Node,
    (∀ row ∈ rows, row.kind = .tableRow ∧ ∀ cell ∈ row.children, cell.kind = .tableCell) →
    (∀ row ∈ rows, IsRegular row) →
      (renderRows setting (mergeTextAll rows)).map (·.map cellText) =
        (renderRows setting rows).map (·.map cellText)
  | [], _, _ => rfl
  | ⟨kind, props, cells, span⟩ :: rows, hrows, h => by
    obtain ⟨⟨-, hcells⟩, hothers⟩ := List.forall_mem_cons.1 hrows
    obtain ⟨hrow, hrest⟩ := List.forall_mem_cons.1 h
    rw [mergeTextAll, Node.mergeText, renderRows, renderRows, List.map_cons, List.map_cons,
      mergeAdjacent_of_kind (by decide) hcells,
      renderCells_mergeTextAll setting cells (isRegular_iff.1 hrow).2,
      renderRows_mergeTextAll setting rows hothers hrest]

theorem renderCells_mergeTextAll (setting : Setting) : ∀ cells : List Node,
    (∀ cell ∈ cells, IsRegular cell) →
      (renderCells setting (mergeTextAll cells)).map cellText =
        (renderCells setting cells).map cellText
  | [], _ => rfl
  | ⟨kind, props, children, span⟩ :: cells, h => by
    obtain ⟨hcell, hcells⟩ := List.forall_mem_cons.1 h
    have hflow := (interchangeable_mergeAdjacent setting (mergeTextAll children)).flow
    rw [renderAll_mergeTextAll setting children (isRegular_iff.1 hcell).2] at hflow
    rw [mergeTextAll, Node.mergeText, renderCells, renderCells, List.map_cons, List.map_cons,
      renderCells_mergeTextAll setting cells hcells, cellText, hflow, cellText]

end

/-- What is said of a node that a layout comes to, when nothing is said of a piece of text and the
same of a node whose text has been merged. -/
structure Overlooks {α : Type} (note : Bool × Node → List α) : Prop where
  text : ∀ inList node, node.kind = .text → note (inList, node) = []
  merged : ∀ inList node, IsRegular node → note (inList, node.mergeText) = note (inList, node)

section

variable {α : Type} {note : Bool × Node → List α}

lemma Overlooks.mergeRun (h : Overlooks note) (inList : Bool) (last : Node) (nodes : List Node) :
    (reachedAmong inList (mergeRun last nodes)).flatMap note =
      (reachedAmong inList (last :: nodes)).flatMap note := by
  have silent {node : Node} (hkind : node.kind = .text) :
      (reached inList node).flatMap note = [] := by
    rw [reached_of_text inList hkind, List.flatMap_singleton, h.text inList node hkind]
  induction nodes generalizing last with
  | nil => rfl
  | cons node nodes ih =>
    rw [Node.mergeRun]
    split
    · next hmerge =>
      obtain ⟨hlast, hnode, -⟩ := Node.canMerge_iff.1 hmerge
      have hmerged : (Node.merge last node).kind = .text := hlast
      rw [ih, reachedAmong, reachedAmong, reachedAmong, List.flatMap_append, List.flatMap_append,
        List.flatMap_append, silent hmerged, silent hlast, silent hnode]
      rfl
    · rw [reachedAmong, List.flatMap_append, ih node, reachedAmong, ← List.flatMap_append]
      rfl

lemma Overlooks.mergeAdjacent (h : Overlooks note) (inList : Bool) (nodes : List Node) :
    (reachedAmong inList (mergeAdjacent nodes)).flatMap note =
      (reachedAmong inList nodes).flatMap note := by
  cases nodes with
  | nil => rfl
  | cons node nodes => exact h.mergeRun inList node nodes

mutual

theorem Overlooks.reached_mergeText (h : Overlooks note) (inList : Bool) : ∀ node : Node, IsRegular node →
    (reached inList node.mergeText).flatMap note = (reached inList node).flatMap note
  | ⟨kind, props, children, span⟩, hregular => by
    obtain ⟨hown, hparts⟩ := isRegular_iff.1 hregular
    have hnote := h.merged inList _ hregular
    have hall (inList : Bool) :
        (reachedAmong inList (Node.mergeAdjacent (mergeTextAll children))).flatMap note =
          (reachedAmong inList children).flatMap note := by
      rw [h.mergeAdjacent, h.reachedAmong_mergeTextAll inList children hparts]
    have hrows (hrole : roleOf kind = .table) :
        (reachedInRows (Node.mergeAdjacent (mergeTextAll children))).flatMap note =
          (reachedInRows children).flatMap note := by
      have hcells := hown.rows (kind_of_table hrole)
      rw [mergeAdjacent_of_kind (by decide) fun row hrow => (hcells row hrow).1]
      exact h.reachedInRows_mergeTextAll children hcells hparts
    rw [Node.mergeText] at hnote ⊢
    rw [reached, reached, List.flatMap_cons, List.flatMap_cons, hnote]
    refine congrArg (note _ ++ ·) ?_
    cases hrole : roleOf kind with
    | list => exact hall true
    | table => exact hrows hrole
    | _ =>
      dsimp only
      split
      · exact hall false
      · rfl

theorem Overlooks.reachedAmong_mergeTextAll (h : Overlooks note) (inList : Bool) : ∀ nodes : List Node,
    (∀ node ∈ nodes, IsRegular node) →
      (reachedAmong inList (mergeTextAll nodes)).flatMap note =
        (reachedAmong inList nodes).flatMap note
  | [], _ => rfl
  | node :: nodes, hregular => by
    obtain ⟨hnode, hnodes⟩ := List.forall_mem_cons.1 hregular
    rw [mergeTextAll, reachedAmong, reachedAmong, List.flatMap_append, List.flatMap_append,
      h.reached_mergeText inList node hnode,
      h.reachedAmong_mergeTextAll inList nodes hnodes]

theorem Overlooks.reachedInRows_mergeTextAll (h : Overlooks note) : ∀ rows : List Node,
    (∀ row ∈ rows, row.kind = .tableRow ∧ ∀ cell ∈ row.children, cell.kind = .tableCell) →
    (∀ row ∈ rows, IsRegular row) →
      (reachedInRows (mergeTextAll rows)).flatMap note = (reachedInRows rows).flatMap note
  | [], _, _ => rfl
  | ⟨kind, props, cells, span⟩ :: rows, hrows, hregular => by
    obtain ⟨⟨-, hcells⟩, hothers⟩ := List.forall_mem_cons.1 hrows
    obtain ⟨hrow, hrest⟩ := List.forall_mem_cons.1 hregular
    rw [mergeTextAll, Node.mergeText, reachedInRows, reachedInRows, List.flatMap_append,
      List.flatMap_append, mergeAdjacent_of_kind (by decide) hcells,
      h.reachedInCells_mergeTextAll cells (isRegular_iff.1 hrow).2,
      h.reachedInRows_mergeTextAll rows hothers hrest]

theorem Overlooks.reachedInCells_mergeTextAll (h : Overlooks note) : ∀ cells : List Node,
    (∀ cell ∈ cells, IsRegular cell) →
      (reachedInCells (mergeTextAll cells)).flatMap note = (reachedInCells cells).flatMap note
  | [], _ => rfl
  | ⟨kind, props, children, span⟩ :: cells, hregular => by
    obtain ⟨hcell, hcells⟩ := List.forall_mem_cons.1 hregular
    rw [mergeTextAll, Node.mergeText, reachedInCells, reachedInCells, List.flatMap_append,
      List.flatMap_append, h.mergeAdjacent,
      h.reachedAmong_mergeTextAll false children (isRegular_iff.1 hcell).2,
      h.reachedInCells_mergeTextAll cells hcells]

end

end

theorem losses_mergeText (inList : Bool) (h : IsRegular node) :
    losses medium inList node.mergeText = losses medium inList node := by
  have hoverlooks : Overlooks (noticesAt medium) :=
    ⟨fun inList node hkind => by rw [noticesAt, ownNotices, hkind]; rfl,
      fun inList node hregular => ownNotices_mergeText medium inList hregular.hasTextLeaves⟩
  exact hoverlooks.reached_mergeText inList node h

lemma hasColumns_mergeText (h : IsRegular node) : hasColumns node.mergeText = hasColumns node := by
  rw [hasColumns, hasColumns, Node.mergeText_kind]
  cases htable : roleOf node.kind == .table with
  | false => rfl
  | true =>
    obtain ⟨kind, props, children, span⟩ := node
    have hcells := (isRegular_iff.1 h).1.rows (kind_of_table (by simpa using htable))
    rw [Node.mergeText]
    dsimp only
    rw [mergeAdjacent_of_kind (by decide) fun row hrow => (hcells row hrow).1,
      Node.mergeTextAll_eq_map, List.isEmpty_map]

lemma laysColumns_mergeText (h : IsRegular node) :
    laysColumns node.mergeText = laysColumns node := by
  let note (place : Bool × Node) : List Unit := if hasColumns place.2 then [()] else []
  have hlays (root : Node) : laysColumns root = !((reached false root).flatMap note).isEmpty := by
    rw [laysColumns]
    induction reached false root with
    | nil => rfl
    | cons place places ih =>
      rw [List.any_cons, List.flatMap_cons, ih]
      cases hplace : hasColumns place.2 <;> simp [note, hplace]
  have hoverlooks : Overlooks note := by
    constructor
    · rintro inList node hkind
      have hnone : hasColumns node = false := by
        rw [hasColumns, hkind]
        rfl
      exact if_neg (by rw [hnone]; decide)
    · rintro inList node hregular
      exact congrArg (fun columns => if columns = true then [()] else [])
        (hasColumns_mergeText hregular)
  rw [hlays, hlays, hoverlooks.reached_mergeText false node h]

/-- On either medium and with the same options, a document whose text has been merged is written as
it was and with the same losses, and it is written unless it was not. -/
theorem write_mergeText {doc : Document} (h : IsRegular doc.content) :
    ∃ merged, Transform.mergeText.Makes doc merged ∧
      ∀ (medium : Medium) (options : WriteOptions),
        write medium merged options = write medium doc options ∧
          (Separates options doc.content → ∃ outcome, write medium doc options = .ok outcome) := by
  refine ⟨_, Transform.makes_mergeText doc, fun medium options => ⟨?_, ?_⟩⟩
  · have hseparator : separatorFor doc.content.mergeText options =
        separatorFor doc.content options := by
      rw [separatorFor, separatorFor, laysColumns_mergeText h]
    have houtput (text : String) :
        output medium { doc with content := doc.content.mergeText } text =
          output medium doc text := by
      rw [output, output, layOut, layOut, render_mergeText _ doc.content h,
        losses_mergeText false h]
    rw [write, write, hseparator, funext houtput]
  · rintro ⟨text, htext⟩
    exact ⟨_, write_eq_output medium htext⟩

/-- A link whose label is its address only when it is put together, a bold text in two pieces in a
cell, a note of a kind that no layout knows, and items that hold text as it is. -/
theorem write_mergeText_pieces :
    let link := Node.link "ab" [.text "a", .text "b"]
    let cell := Node.tableCell false [.branch .strong [.text "c", .text "d"], .text "e", .text "f"]
    let note := Node.branch ⟨"note", by decide⟩ [.text "g", .text "h"]
    let doc := Document.ofContent (.document [.paragraph [link, .text "", .text "i"],
      .table [.tableRow [cell, .tableCell false [.text "j"]]], note,
      .list true [.listItem [.text "k", .text "l"], .listItem []]])
    IsRegular doc.content ∧
      ∃ merged, Transform.mergeText.Makes doc merged ∧
        ∀ (medium : Medium) (options : WriteOptions),
          write medium merged options = write medium doc options ∧
            (Separates options doc.content →
              ∃ outcome, write medium doc options = .ok outcome) := by
  intro link cell note doc
  have h : IsRegular doc.content := by decide
  exact ⟨h, write_mergeText h⟩

/-- Directly in a list each piece of text is an item, so there it shows how text is divided. -/
example :
    let setting : Setting := ⟨.plain, [], .plain, false⟩
    let list := Node.list false [.text "a", .text "b"]
    layOut setting list = "- a\n- b\n".toList ∧
      layOut setting list.mergeText = "- ab\n".toList := by
  decide

end Interchange.Layout
