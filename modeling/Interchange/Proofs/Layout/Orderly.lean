import Interchange.Document.Builders
import Interchange.Proofs.Layout.Stacking
import Interchange.Proofs.Document.Contents
import Interchange.Proofs.Document.Texts
import Interchange.Proofs.Layout.Keeping

/-!
# No text is lost in a layout

A document is laid out, on either medium, without a loss of text when its nodes have parts only
where parts are laid out: none in a piece of text or a rule, only rows in a table and only cells in
a row.
-/
namespace Interchange.Layout

open Text (Keeps)

/-- The kinds of nodes that have no parts. -/
def atoms : List Kind := [.text, .code, .codeBlock, .image, .lineBreak, .softBreak, .footnoteRef,
  .horizontalRule]

/-- A node that has parts only where these are laid out, and no source of a formula in their place. -/
structure Orderly (node : Node) : Prop where
  childless : node.kind ∈ atoms → node.children = []
  rows : node.kind = .table → ∀ row ∈ node.children, row.kind = .tableRow
  cells : node.kind = .tableRow → ∀ cell ∈ node.children, cell.kind = .tableCell
  sourceless : node.props.get? Key.mathSource = none

instance (node : Node) : Decidable (Orderly node) :=
  decidable_of_iff
    ((node.kind ∈ atoms → node.children = []) ∧
      (node.kind = .table → ∀ row ∈ node.children, row.kind = .tableRow) ∧
      (node.kind = .tableRow → ∀ cell ∈ node.children, cell.kind = .tableCell) ∧
      node.props.get? Key.mathSource = none)
    ⟨fun ⟨childless, rows, cells, sourceless⟩ => ⟨childless, rows, cells, sourceless⟩,
      fun h => ⟨h.childless, h.rows, h.cells, h.sourceless⟩⟩

lemma mem_roleTable {kind : Kind} (h : roleOf kind ≠ .unknown) :
    (kind, roleOf kind) ∈ roleTable := by
  cases hfound : roleTable.find? (·.1 = kind) with
  | none => exact absurd (by rw [roleOf, hfound]) h
  | some found =>
    have hkind : found.1 = kind := by simpa using List.find?_some hfound
    have hrole : roleOf kind = found.2 := by rw [roleOf, hfound]
    rw [hrole, ← hkind]
    exact List.mem_of_find?_eq_some hfound

lemma kind_of_list {kind : Kind} (h : roleOf kind = .list) : kind = .list := by
  have hlists : ∀ e ∈ roleTable, e.2 = .list → e.1 = .list := by decide
  exact hlists (kind, roleOf kind) (mem_roleTable (h ▸ nofun)) h

lemma kind_of_table {kind : Kind} (h : roleOf kind = .table) : kind = .table := by
  have htables : ∀ e ∈ roleTable, e.2 = .table → e.1 = .table := by decide
  exact htables (kind, roleOf kind) (mem_roleTable (h ▸ nofun)) h

/-- The roles in which nothing is laid out but the node itself. -/
def atomRoles : List Role := [.content, .codeBlock, .rule, .image, .lineBreak, .softBreak,
  .footnoteRef]

lemma mem_atoms_of_roleOf {kind : Kind} (h : roleOf kind ∈ atomRoles) : kind ∈ atoms := by
  have hatoms : ∀ e ∈ roleTable, e.2 ∈ atomRoles → e.1 ∈ atoms := by decide
  have hunknown : Role.unknown ∉ atomRoles := by decide
  exact hatoms (kind, roleOf kind) (mem_roleTable (ne_of_mem_of_not_mem h hunknown)) h

lemma roleOf_of_bearsText {kind : Kind} (h : Node.bearsText kind = true) :
    roleOf kind = .content ∨ roleOf kind = .codeBlock := by
  simp only [Node.bearsText, Bool.or_eq_true, beq_iff_eq] at h
  rcases h with (rfl | rfl) | rfl <;> decide

lemma orderly_walk_iff {node : Node} : (∀ part ∈ node.walk, Orderly part) ↔
    Orderly node ∧ ∀ child ∈ node.children, ∀ part ∈ child.walk, Orderly part :=
  Node.forall_mem_walk_iff

lemma plainText_of_orderly {node : Node} (h : Orderly node) : node.plainText = node.textContent := by
  simp [Node.plainText, Bag.filled?, Bag.text?, h.sourceless]

lemma mathText_of_orderly {node : Node} (h : Orderly node) :
    mathText node = node.textContent.toList := by
  simp [mathText, Bag.text?, h.sourceless, plainText_of_orderly h]

lemma keeps_childless {node : Node} (h : node.children = []) :
    Keeps node.textContent.toList (Bag.textOr node.props Key.content).toList := by
  rw [Node.textContent_eq, h, Node.textContents, String.append_empty, Node.ownText]
  split
  · exact .refl _
  · exact .nil _

mutual

/-- The cases are the roles: an atom has its own text, any other node the text of its parts. -/
theorem keeps_render (setting : Setting) : ∀ node : Node, (∀ part ∈ node.walk, Orderly part) →
    Keeps node.textContent.toList (render setting node).text
  | ⟨kind, props, children, span⟩, h => by
    obtain ⟨hnode, hchildren⟩ := orderly_walk_iff.1 h
    have hplain := plainText_of_orderly hnode
    have hmath := mathText_of_orderly hnode
    have bare (hrole : roleOf kind ≠ .content ∧ roleOf kind ≠ .codeBlock) :
        (⟨kind, props, children, span⟩ : Node).textContent = Node.textContents children := by
      refine Node.textContent_of_parts (Bool.eq_false_iff.2 fun hbears => ?_)
      rcases roleOf_of_bearsText hbears with hkind | hkind
      · exact hrole.1 hkind
      · exact hrole.2 hkind
    have childless (hrole : roleOf kind ∈ atomRoles) : children = [] :=
      hnode.childless (mem_atoms_of_roleOf hrole)
    have own (hrole : roleOf kind ∈ atomRoles) :
        Keeps (⟨kind, props, children, span⟩ : Node).textContent.toList
          (Bag.textOr props Key.content).toList :=
      keeps_childless (childless hrole)
    have parts := keeps_renderAll (setting.within (roleOf kind) kind) children hchildren
    have rows (htable : kind = .table) :=
      keeps_renderRows (setting.within (roleOf kind) kind) children (hnode.rows htable) hchildren
    have table : roleOf kind = .table → kind = .table := kind_of_table
    have blocks := flatten_flow (renderAll (setting.within (roleOf kind) kind) children)
    have line := parts.trans (keeps_inlineText _)
    rw [render]
    dsimp only
    generalize roleOf kind = role at bare childless own parts rows table blocks line
    cases role with
    | container =>
      rw [bare ⟨nofun, nofun⟩, Rendered.text, blocks]
      exact parts
    | paragraph =>
      rw [bare ⟨nofun, nofun⟩, Rendered.text, flatten_nonempty]
      exact line
    | heading =>
      rw [bare ⟨nofun, nofun⟩, Rendered.text, flatten_nonempty]
      exact line.trans (keeps_wrap setting .heading kind _)
    | indented =>
      rw [bare ⟨nofun, nofun⟩]
      rw [← blocks] at parts
      exact (parts.trans (keeps_unlines _)).trans (keeps_unlessEmpty keeps_indent _)
    | codeBlock =>
      rw [Rendered.text, List.flatten_singleton]
      exact own (by decide)
    | blockquote =>
      rw [bare ⟨nofun, nofun⟩]
      rw [← blocks] at parts
      exact (parts.trans (keeps_joinWith "\n\n" _)).trans (keeps_unlessEmpty keeps_quote _)
    | list =>
      rw [bare ⟨nofun, nofun⟩]
      exact parts.trans (keeps_listBlock props _)
    | listItem =>
      cases setting.inList with
      | true =>
        rw [bare ⟨nofun, nofun⟩]
        rw [← blocks] at parts
        exact parts
      | false =>
        rw [if_neg Bool.false_ne_true, Rendered.text, flatten_nonempty, hplain]
        exact .refl _
    | table =>
      rw [bare ⟨nofun, nofun⟩]
      exact (rows (table rfl)).trans (keeps_tableBlock _ _)
    | footnoteDef =>
      rw [bare ⟨nofun, nofun⟩, Rendered.text, List.flatten_singleton]
      rw [← blocks] at parts
      exact parts.trans (keeps_footnoteText props _)
    | displayMath =>
      rw [hmath, Rendered.text, flatten_nonempty]
      exact .refl _
    | inlineMath =>
      rw [hmath]
      exact .refl _
    | unknown =>
      rw [hplain, Rendered.text, flatten_nonempty]
      exact .refl _
    | style =>
      rw [bare ⟨nofun, nofun⟩]
      exact line.trans (keeps_wrap setting .style kind _)
    | span =>
      rw [bare ⟨nofun, nofun⟩]
      exact line
    | quoted =>
      rw [bare ⟨nofun, nofun⟩]
      exact (line.behind ['"']).before ['"']
    | link =>
      rw [bare ⟨nofun, nofun⟩]
      exact line.trans (keeps_linkText props _)
    | content => exact own (by decide)
    | rule | image | lineBreak | softBreak | footnoteRef =>
      rw [bare ⟨nofun, nofun⟩, childless (by decide)]
      exact .nil _

theorem keeps_renderAll (setting : Setting) : ∀ nodes : List Node,
    (∀ node ∈ nodes, ∀ part ∈ node.walk, Orderly part) →
    Keeps (Node.textContents nodes).toList ((renderAll setting nodes).flatMap Rendered.text)
  | [], _ => .nil _
  | node :: nodes, h => by
    obtain ⟨hnode, hnodes⟩ := List.forall_mem_cons.1 h
    rw [Node.textContents, renderAll, String.toList_append, List.flatMap_cons]
    exact (keeps_render setting node hnode).append (keeps_renderAll setting nodes hnodes)

theorem keeps_renderRows (setting : Setting) : ∀ rows : List Node,
    (∀ row ∈ rows, row.kind = .tableRow) → (∀ row ∈ rows, ∀ part ∈ row.walk, Orderly part) →
    Keeps (Node.textContents rows).toList ((renderRows setting rows).flatMap fun row =>
      row.flatMap fun parts => parts.flatMap Rendered.text)
  | [], _, _ => .nil _
  | ⟨kind, props, cells, span⟩ :: rows, hkinds, h => by
    obtain ⟨hkind, hothers⟩ := List.forall_mem_cons.1 hkinds
    obtain ⟨hrow, hrows⟩ := List.forall_mem_cons.1 h
    obtain ⟨hown, hcells⟩ := orderly_walk_iff.1 hrow
    obtain rfl : kind = .tableRow := hkind
    have htext : (⟨.tableRow, props, cells, span⟩ : Node).textContent = Node.textContents cells :=
      Node.textContent_of_parts rfl
    rw [Node.textContents, renderRows, String.toList_append, List.flatMap_cons, htext]
    exact (keeps_renderCells setting cells (hown.cells rfl) hcells).append
      (keeps_renderRows setting rows hothers hrows)

theorem keeps_renderCells (setting : Setting) : ∀ cells : List Node,
    (∀ cell ∈ cells, cell.kind = .tableCell) → (∀ cell ∈ cells, ∀ part ∈ cell.walk, Orderly part) →
    Keeps (Node.textContents cells).toList ((renderCells setting cells).flatMap fun parts =>
      parts.flatMap Rendered.text)
  | [], _, _ => .nil _
  | ⟨kind, props, children, span⟩ :: cells, hkinds, h => by
    obtain ⟨hkind, hothers⟩ := List.forall_mem_cons.1 hkinds
    obtain ⟨hcell, hcells⟩ := List.forall_mem_cons.1 h
    obtain ⟨-, hchildren⟩ := orderly_walk_iff.1 hcell
    obtain rfl : kind = .tableCell := hkind
    have htext : (⟨.tableCell, props, children, span⟩ : Node).textContent = Node.textContents children :=
      Node.textContent_of_parts rfl
    rw [Node.textContents, renderCells, String.toList_append, List.flatMap_cons, htext]
    exact (keeps_renderAll setting children hchildren).append
      (keeps_renderCells setting cells hothers hcells)

end

lemma keeps_layOut (setting : Setting) {root : Node} (h : ∀ part ∈ root.walk, Orderly part) :
    Keeps root.textContent.toList (layOut setting root) := by
  have htext := keeps_render setting root h
  rw [← flatten_toBlocks] at htext
  have hjoined := htext.trans (keeps_joinWith "\n\n" _)
  unfold layOut
  dsimp only
  split
  · next hempty => rwa [List.isEmpty_iff.1 hempty] at hjoined
  · exact hjoined.before ['\n']

/-- A document whose nodes are orderly is written on either medium, and the letters of its text stand
in the output in their order, whatever the options set that can stand between columns. -/
theorem keeps_write (medium : Medium) {options : WriteOptions} {doc : Document}
    (hoptions : Separates options doc.content) (h : ∀ part ∈ doc.content.walk, Orderly part) :
    ∃ written, write medium doc options = .ok written ∧
      Keeps doc.content.textContent.toList written.value.toList := by
  obtain ⟨text, htext⟩ := hoptions
  refine ⟨_, write_eq_output medium htext, ?_⟩
  rw [output, String.toList_ofList]
  exact keeps_layOut _ h

/-- Blocks in a line, pieces among blocks, an unknown kind, a list in a table and a link whose label
is its address. -/
theorem keeps_write_report :
    let doc := Document.ofContent (.document [
      .paragraph [.text "one ", .branch .blockquote [.paragraph [.text " two\n\nthree "]],
        .link "http://x" [.text "http://x"]],
      .text "stray ", .branch .strong [.text "run"], .branch ⟨"x:box", by decide⟩ [.text "boxed"],
      .table [.tableRow [.tableCell true [.list true [.listItem [.text "a\nb"], .text "c"]],
        .tableCell true []], .tableRow [.tableCell false [.leaf .codeBlock]]],
      .footnoteDef "1" [.paragraph [.text "note "], .pageBreak]])
    (Separates .standard doc.content ∧ ∀ part ∈ doc.content.walk, Orderly part) ∧
      ∃ written, write .plain doc .standard = .ok written ∧
        Keeps doc.content.textContent.toList written.value.toList := by
  intro doc
  have horderly : ∀ part ∈ doc.content.walk, Orderly part := by decide +kernel
  have hoptions := separates_standard doc.content
  exact ⟨⟨hoptions, horderly⟩, keeps_write .plain hoptions horderly⟩

end Interchange.Layout
