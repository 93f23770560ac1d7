import Interchange.Proofs.Document.Texts
import Interchange.Proofs.Word.Plain

/-!
# What is kept of a document

The sketch of a block says what it is, how it is built up, and which characters it holds in which
styles. Blocks of styled text are written as plain blocks of the same sketch.
-/
namespace Interchange.Word

abbrev StyledLine := List (Char × TextStyle)

/-- The characters below a node, each with the styles around it. -/
def styledLine (node : Node) : StyledLine := Node.styledCharsAmong .plain node.children

structure CellSketch where
  kind : Kind
  header : Bool
  line : StyledLine

inductive Sketch where
  | heading (level : Option Int) (line : StyledLine)
  | paragraph (line : StyledLine)
  | pageBreak
  | list (ordered : Bool) (items : List (Kind × StyledLine))
  | table (rows : List (Kind × List CellSketch))
  | other (kind : Kind)

def cellSketch (cell : Node) : CellSketch :=
  ⟨cell.kind, Bag.isOn cell.props Key.header, styledLine cell⟩

def sketch (node : Node) : Sketch :=
  if node.kind = .heading then .heading (Bag.int? node.props Key.level) (styledLine node)
  else if node.kind = .paragraph then .paragraph (styledLine node)
  else if node.kind = .horizontalRule ∧ Bag.isOn node.props Key.pageBreak = true then .pageBreak
  else if node.kind = .list then .list (Bag.isOn node.props Key.ordered)
    (node.children.map fun item => (item.kind, styledLine item))
  else if node.kind = .table then
    .table (node.children.map fun row => (row.kind, row.children.map cellSketch))
  else .other node.kind

namespace PlainBlock

/-- The first row is a header where the table begins with one. -/
def rowSketches (header : Bool) : List (List PlainLine) → List (Kind × List CellSketch)
  | [] => []
  | row :: rows =>
    (.tableRow, row.map fun line => ⟨.tableCell, header, line.chars⟩) :: rowSketches false rows

/-- What is kept of a block. -/
def sketch : PlainBlock → Sketch
  | .heading level line => .heading (some (level + 1)) line.chars
  | .paragraph _ line _ => .paragraph line.chars
  | .pageBreak => .pageBreak
  | .list ordered items _ => .list ordered (items.map fun line => (.listItem, line.chars))
  | .table rows => .table (rowSketches true rows)

lemma styledLine_paragraph (line : PlainLine) :
    (Node.paragraph line.nodes).styledChars .plain = line.chars :=
  line.styledCharsAmong_nodes

lemma styledLine_itemNode (line : PlainLine) : styledLine (itemNode line) = line.chars := by
  rw [← styledLine_paragraph]
  exact List.append_nil _

lemma cellSketch_cellNode (header : Bool) (line : PlainLine) :
    cellSketch (cellNode header line) = ⟨.tableCell, header, line.chars⟩ := by
  have hheader : Bag.isOn (cellNode header line).props Key.header = header := by
    cases header <;> rfl
  have hline : styledLine (cellNode header line) = line.chars := by
    have hchildren : (cellNode header line).children =
        ([line.nodes].filter (!·.isEmpty)).map .paragraph := rfl
    rw [styledLine, hchildren, ← styledLine_paragraph]
    by_cases hempty : line.nodes = []
    · rw [hempty]
      rfl
    · rw [List.filter_cons_of_pos (by simpa using hempty)]
      exact List.append_nil _
  rw [cellSketch, hheader, hline]
  rfl

lemma map_rowNodes (header : Bool) (rows : List (List PlainLine)) :
    (rowNodes header rows).map (fun row => (row.kind, row.children.map cellSketch)) =
      rowSketches header rows := by
  induction rows generalizing header with
  | nil => rfl
  | cons row rows ih =>
    have hcells : (row.map (cellNode header)).map cellSketch =
        row.map fun line => ⟨.tableCell, header, line.chars⟩ := by
      rw [List.map_map]
      exact List.map_congr_left fun line _ => cellSketch_cellNode header line
    rw [rowNodes, List.map_cons, ih, rowSketches, ← hcells]
    rfl

/-- What is read of a block has its sketch. -/
theorem sketch_node (block : PlainBlock) : Word.sketch block.node = block.sketch := by
  cases block with
  | heading level line =>
    have hlevel : ∀ level : Fin 6, (Int64.ofNat (level + 1)).toInt = level + 1 := by decide
    have hline := line.styledCharsAmong_nodes
    exact congrArg₂ Sketch.heading (congrArg some (hlevel level)) hline
  | paragraph alignment line filled =>
    cases alignment <;> exact congrArg Sketch.paragraph line.styledCharsAmong_nodes
  | pageBreak => rfl
  | list ordered items filled =>
    have hordered :
        Bag.isOn (Node.list ordered (items.map itemNode)).props Key.ordered = ordered := by
      cases ordered <;> rfl
    have hitems : (items.map itemNode).map (fun item => (item.kind, styledLine item)) =
        items.map fun line => (.listItem, line.chars) := by
      rw [List.map_map]
      exact List.map_congr_left fun line _ => congrArg _ (styledLine_itemNode line)
    exact congrArg₂ Sketch.list hordered hitems
  | table rows => exact congrArg Sketch.table (map_rowNodes true rows)

end PlainBlock

/-- A character that a package holds and that does not break a line. -/
def IsHeld (c : Char) : Prop := ' ' ≤ c ∧ Markup.isAllowed c = true

/-- Text in styles. -/
structure IsLine (nodes : List Node) : Prop where
  styled : ∀ node ∈ nodes, node.IsStyledText
  held : ∀ c ∈ (Node.textContents nodes).toList, IsHeld c

structure IsParagraph (node : Node) : Prop where
  kind : node.kind = .paragraph
  line : IsLine node.children

structure IsItem (node : Node) : Prop where
  kind : node.kind = .listItem
  children : ∃ paragraph, IsParagraph paragraph ∧ node.children = [paragraph]

structure IsCell (header : Bool) (node : Node) : Prop where
  kind : node.kind = .tableCell
  header : Bag.isOn node.props Key.header = header
  children : node.children = [] ∨ ∃ paragraph, IsParagraph paragraph ∧ node.children = [paragraph]

structure IsRow (header : Bool) (width : ℕ) (node : Node) : Prop where
  kind : node.kind = .tableRow
  width : node.children.length = width
  cells : ∀ cell ∈ node.children, IsCell header cell

/-- A block that is kept: of a table the first row, and no other, is a header. -/
inductive IsPlainBlock (node : Node) : Prop
  | heading (kind : node.kind = .heading) (level : Int) (least : 1 ≤ level) (most : level ≤ 6)
      (found : Bag.int? node.props Key.level = some level) (line : IsLine node.children)
  | paragraph (paragraph : IsParagraph node) (filled : Node.textContents node.children ≠ "")
  | pageBreak (kind : node.kind = .horizontalRule) (on : Bag.isOn node.props Key.pageBreak = true)
      (leaf : node.children = [])
  | list (kind : node.kind = .list) (filled : node.children ≠ [])
      (items : ∀ item ∈ node.children, IsItem item)
  | table (kind : node.kind = .table) (first : Node) (rest : List Node) (width : ℕ)
      (wide : 0 < width) (children : node.children = first :: rest) (head : IsRow true width first)
      (body : ∀ row ∈ rest, IsRow false width row)

/-- The kind of a list, if the node is one. -/
def listKind? (node : Node) : Option Bool :=
  if node.kind = .list then some (Bag.isOn node.props Key.ordered) else none

/-- A document of plain blocks, where lists of one kind do not follow each other. -/
structure IsPlainDocument (doc : Document) : Prop where
  root : doc.content.kind = .document
  blocks : ∀ block ∈ doc.content.children, IsPlainBlock block
  apart : doc.content.children.IsChain fun block next =>
    listKind? block = none ∨ listKind? block ≠ listKind? next

lemma allowedText_of_held {text : String} (h : ∀ c ∈ text.toList, IsHeld c) :
    allowedText text = text := by
  rw [allowedText, List.filter_eq_self.2 fun c hc => (h c hc).2, String.ofList_toList]

/-- Pieces of a line that are runs of plain text. -/
def IsWrittenAs (pieces : List Placed) (line : PlainLine) (chars : StyledLine) : Prop :=
  pieces.map Placed.item = line.items ∧ line.chars = chars

section Lines

variable (setting : Setting)

lemma exists_lines {style : TextStyle} {nodes : List Node}
    (h : ∀ node ∈ nodes, ∃ line, IsWrittenAs (compose setting (plainFormat style) node).value line
      (node.styledChars style)) :
    ∃ line, IsWrittenAs (composeAll setting (plainFormat style) nodes).value line
      (Node.styledCharsAmong style nodes) := by
  induction nodes with
  | nil => exact ⟨[], rfl, rfl⟩
  | cons node nodes ih =>
    obtain ⟨hnode, hnodes⟩ := List.forall_mem_cons.1 h
    obtain ⟨line, hitems, hchars⟩ := hnode
    obtain ⟨others, hothers, hrest⟩ := ih hnodes
    refine ⟨line ++ others, ?_, ?_⟩
    · rw [composeAll, Noted.bind_value, Noted.bind_value, Noted.pure_value, List.map_append, hitems,
        hothers]
      exact List.map_append.symm
    · rw [Node.styledCharsAmong, ← hchars, ← hrest]
      exact List.flatMap_append

lemma exists_text (style : TextStyle) {node : Node} (kind : node.kind = .text)
    (leaf : node.children = []) (held : ∀ c ∈ node.textContent.toList, IsHeld c) :
    ∃ line, IsWrittenAs (compose setting (plainFormat style) node).value line
      (node.styledChars style) := by
  obtain ⟨own, props, children, span⟩ := node
  obtain rfl : own = .text := kind
  obtain rfl : children = [] := leaf
  set text := Bag.textOr props Key.content
  have hcontent : (⟨.text, props, [], span⟩ : Node).textContent = text :=
    (Node.textContent_eq _).trans String.append_empty
  rw [hcontent] at held
  have hcompose : (compose setting (plainFormat style) ⟨.text, props, [], span⟩).value =
      [.held (.ofText (plainFormat style) text)] := by
    have hvalue : (compose setting (plainFormat style) ⟨.text, props, [], span⟩).value =
        [.held (.ofText (plainFormat style) (allowedText text))] := rfl
    rw [hvalue, allowedText_of_held held]
  let piece : Piece := ⟨style, text.toList, fun c hc => (held c hc).1⟩
  refine ⟨[piece], ?_, ?_⟩
  · have hrun : piece.run = .ofText (plainFormat style) text :=
      congrArg (Run.ofText _) String.ofList_toList
    rw [hcompose, PlainLine.items, List.map_singleton, List.map_singleton, hrun]
    rfl
  · rfl

lemma compose_styled (style : TextStyle) {node : Node} (flag : StyleFlag)
    (kind : node.kind = flag.kind) : compose setting (plainFormat style) node =
      composeAll setting (plainFormat (style.set flag true)) node.children := by
  obtain ⟨own, props, children, span⟩ := node
  obtain rfl : own = flag.kind := kind
  cases flag <;> rfl

/-- Styled text is written as runs of plain text with the same characters in the same styles. -/
theorem exists_styled {node : Node} (h : node.IsStyledText) (style : TextStyle)
    (held : ∀ c ∈ node.textContent.toList, IsHeld c) :
    ∃ line, IsWrittenAs (compose setting (plainFormat style) node).value line
      (node.styledChars style) := by
  induction h generalizing style with
  | text kind leaf => exact exists_text setting style kind leaf held
  | @styled node flag kind parts ih =>
    have hown : node.ownText = "" := by
      rw [Node.ownText, kind]
      cases flag <;> rfl
    rw [compose_styled setting style flag kind, Node.styledChars_eq, hown, kind,
      TextStyle.within_kind]
    exact exists_lines setting fun part hpart => ih part hpart _ fun c hc =>
      held c (Node.mem_textContent_of_mem_children hpart hc)

theorem exists_line {nodes : List Node} (h : IsLine nodes) : ∃ line : PlainLine,
    (composeItems setting nodes).value = line.items ∧
      line.chars = Node.styledCharsAmong .plain nodes := by
  have htexts : ∀ node ∈ nodes, ∀ c ∈ node.textContent.toList,
      c ∈ (Node.textContents nodes).toList := by
    intro node hnode c hc
    rw [Node.textContents_eq_flatMap]
    exact List.mem_flatMap.2 ⟨node, hnode, hc⟩
  exact exists_lines setting fun node hnode =>
    exists_styled setting (h.styled node hnode) .plain fun c hc => h.held c (htexts node hnode c hc)

lemma exists_lineBlock {nodes : List Node} (h : IsLine nodes) (style : Option String)
    (alignment : Option Alignment) : ∃ line : PlainLine,
      (composeParagraph setting style alignment nodes).value =
        [PlainBlock.lineBlock style alignment line] ∧
      line.chars = Node.styledCharsAmong .plain nodes := by
  obtain ⟨line, hitems, hchars⟩ := exists_line setting h
  exact ⟨line, by rw [composeParagraph, Noted.bind_value, hitems]; rfl, hchars⟩

end Lines

/-- A block that a node is written as: it has the sketch of the node. -/
structure Stands (setting : Setting) (node : Node) (block : PlainBlock) : Prop where
  written : (composeBlock setting .outermost node).value = block.written setting.tableStyle
  sketch : block.sketch = sketch node
  listKind : block.listKind? = listKind? node

section Blocks

variable (setting : Setting)

lemma exists_items (ordered : Bool) {nodes : List Node} (h : ∀ node ∈ nodes, IsItem node) :
    ∃ items : List PlainLine,
      (composeBlocks setting (Spot.outermost.list ordered) nodes).value =
        items.map (PlainBlock.lineBlock (some (Spot.listStyle ordered 0)) none) ∧
      items.map (fun line => (Kind.listItem, line.chars)) =
        nodes.map fun item => (item.kind, styledLine item) := by
  induction nodes with
  | nil => exact ⟨[], rfl, rfl⟩
  | cons node nodes ih =>
    obtain ⟨hnode, hnodes⟩ := List.forall_mem_cons.1 h
    obtain ⟨items, hitems, hlines⟩ := ih hnodes
    obtain ⟨kind, props, children, span⟩ := node
    obtain ⟨rfl, paragraph, ⟨hkind, hline⟩, rfl⟩ :
        kind = .listItem ∧ ∃ paragraph, IsParagraph paragraph ∧ children = [paragraph] :=
      ⟨hnode.kind, hnode.children⟩
    obtain ⟨own, paragraphProps, parts, paragraphSpan⟩ := paragraph
    obtain rfl : own = .paragraph := hkind
    obtain ⟨line, hblock, hchars⟩ :=
      exists_lineBlock setting hline (some (Spot.listStyle ordered 0)) none
    refine ⟨line :: items, ?_, ?_⟩
    · have hfirst : (composeBlock setting (Spot.outermost.list ordered)
          ⟨.listItem, props, [⟨.paragraph, paragraphProps, parts, paragraphSpan⟩], span⟩).value =
            (composeParagraph setting (some (Spot.listStyle ordered 0)) none parts).value := rfl
      rw [composeBlocks, Noted.bind_value, Noted.bind_value, Noted.pure_value, hfirst, hblock,
        hitems]
      rfl
    · rw [List.map_cons, List.map_cons, hlines, hchars]
      refine congrArg (· :: _) (congrArg _ ?_)
      exact (List.append_nil _).symm

lemma exists_cells (header : Bool) {nodes : List Node} (h : ∀ node ∈ nodes, IsCell header node) :
    ∃ row : List PlainLine,
      (composeCells setting nodes).value =
        row.map (fun line => [PlainBlock.lineBlock none none line]) ∧
      row.map (fun line => (⟨.tableCell, header, line.chars⟩ : CellSketch)) =
        nodes.map cellSketch := by
  induction nodes with
  | nil => exact ⟨[], rfl, rfl⟩
  | cons node nodes ih =>
    obtain ⟨hnode, hnodes⟩ := List.forall_mem_cons.1 h
    obtain ⟨row, hrow, hcells⟩ := ih hnodes
    obtain ⟨kind, props, children, span⟩ := node
    obtain rfl : kind = .tableCell := hnode.kind
    have hheader : Bag.isOn props Key.header = header := hnode.header
    obtain ⟨line, hblock, hchars⟩ : ∃ line : PlainLine, (composeCell setting children).value =
        [PlainBlock.lineBlock none none line] ∧
          line.chars = Node.styledCharsAmong .plain children := by
      obtain hnone | ⟨paragraph, ⟨hkind, hline⟩, hsome⟩ :
          children = [] ∨ ∃ paragraph, IsParagraph paragraph ∧ children = [paragraph] :=
        hnode.children
      · rw [hnone]
        exact ⟨[], rfl, rfl⟩
      · obtain ⟨own, paragraphProps, parts, paragraphSpan⟩ := paragraph
        obtain rfl : own = .paragraph := hkind
        obtain ⟨line, hblock, hchars⟩ := exists_lineBlock setting hline none none
        rw [hsome]
        exact ⟨line, hblock, hchars.trans (List.append_nil _).symm⟩
    refine ⟨line :: row, ?_, ?_⟩
    · rw [composeCells, Noted.bind_value, Noted.bind_value, Noted.pure_value, hblock, hrow]
      rfl
    · rw [List.map_cons, List.map_cons, hcells, hchars, cellSketch, hheader]
      rfl

/-- A row as wide as its table is not filled up. -/
lemma exists_row {header : Bool} {width : ℕ} {node : Node} (h : IsRow header width node) :
    ∃ row : List PlainLine,
      (∀ nodes, (composeRows setting width (node :: nodes)).value =
        row.map (fun line => [PlainBlock.lineBlock none none line]) ::
          (composeRows setting width nodes).value) ∧
      row.map (fun line => (⟨.tableCell, header, line.chars⟩ : CellSketch)) =
        node.children.map cellSketch := by
  obtain ⟨kind, props, cells, span⟩ := node
  obtain rfl : kind = .tableRow := h.kind
  obtain ⟨row, hrow, hcells⟩ := exists_cells setting header h.cells
  refine ⟨row, fun nodes => ?_, hcells⟩
  have hlength : row.length = width := by
    have hsame := congrArg List.length hcells
    rw [List.length_map, List.length_map] at hsame
    exact hsame.trans h.width
  have hpadded : (composeRows setting width (⟨.tableRow, props, cells, span⟩ :: nodes)).value =
      padRow width (composeCells setting cells).value :: (composeRows setting width nodes).value :=
    rfl
  rw [hpadded, hrow, padRow, List.length_map, hlength, Nat.sub_self]
  exact congrArg (· :: _) (List.append_nil _)

lemma exists_rows {width : ℕ} {nodes : List Node} (h : ∀ node ∈ nodes, IsRow false width node) :
    ∃ rows : List (List PlainLine),
      (composeRows setting width nodes).value =
        rows.map (fun row => row.map fun line => [PlainBlock.lineBlock none none line]) ∧
      PlainBlock.rowSketches false rows =
        nodes.map fun row => (row.kind, row.children.map cellSketch) := by
  induction nodes with
  | nil => exact ⟨[], rfl, rfl⟩
  | cons node nodes ih =>
    obtain ⟨hnode, hnodes⟩ := List.forall_mem_cons.1 h
    obtain ⟨row, hrow, hcells⟩ := exists_row setting hnode
    obtain ⟨rows, hrows, hrest⟩ := ih hnodes
    refine ⟨row :: rows, ?_, ?_⟩
    · rw [hrow, hrows, List.map_cons]
    · rw [PlainBlock.rowSketches, List.map_cons, hcells, hrest, hnode.kind]

lemma tableWidth_eq {header : Bool} {width : ℕ} {first : Node} {rest : List Node}
    (head : IsRow header width first) (body : ∀ row ∈ rest, IsRow false width row) :
    tableWidth (first :: rest) = width := by
  have hrows : (first :: rest).filter (·.kind = .tableRow) = first :: rest := by
    refine List.filter_eq_self.2 fun row hrow => decide_eq_true ?_
    rcases List.mem_cons.1 hrow with rfl | hmem
    · exact head.kind
    · exact (body row hmem).kind
  have hwidths : rest.map (·.children.length) = List.replicate rest.length width := by
    refine List.eq_replicate_iff.2 ⟨List.length_map _, fun n hn => ?_⟩
    obtain ⟨row, hrow, rfl⟩ := List.mem_map.1 hn
    exact (body row hrow).width
  have hfold (n : ℕ) : (List.replicate n width).foldl max width = width := by
    induction n with
    | zero => rfl
    | succ n ih => rw [List.replicate_succ, List.foldl_cons, Nat.max_self, ih]
  rw [tableWidth, hrows, List.map_cons, List.foldl_cons, hwidths, head.width, Nat.zero_max, hfold]

lemma exists_table {node : Node} (kind : node.kind = .table) {first : Node} {rest : List Node}
    {width : ℕ} (wide : 0 < width) (children : node.children = first :: rest)
    (head : IsRow true width first) (body : ∀ row ∈ rest, IsRow false width row) :
    ∃ block, Stands setting node block := by
  obtain ⟨own, props, parts, span⟩ := node
  obtain rfl : own = .table := kind
  obtain rfl : parts = first :: rest := children
  obtain ⟨row, hrow, hcells⟩ := exists_row setting head
  obtain ⟨rows, hrows, hrest⟩ := exists_rows setting body
  have hwidth : tableWidth (first :: rest) ≠ 0 := (tableWidth_eq head body).symm ▸ wide.ne'
  refine ⟨.table (row :: rows), ?_, ?_, rfl⟩
  · have hblock : (composeBlock setting .outermost ⟨.table, props, first :: rest, span⟩).value =
        tableBlocks setting .outermost
          (composeRows setting (tableWidth (first :: rest)) (first :: rest)).value := by
      change Noted.value (if tableWidth (first :: rest) = 0 then _ else _) = _
      rw [if_neg hwidth]
      rfl
    rw [hblock, tableWidth_eq head body, hrow, hrows]
    rfl
  · have hsketch : Word.sketch ⟨.table, props, first :: rest, span⟩ =
        .table ((first :: rest).map fun row => (row.kind, row.children.map cellSketch)) := rfl
    rw [hsketch, PlainBlock.sketch, PlainBlock.rowSketches, hcells, hrest, List.map_cons, head.kind]

lemma exists_heading {node : Node} (kind : node.kind = .heading) {level : Int} (least : 1 ≤ level)
    (most : level ≤ 6) (found : Bag.int? node.props Key.level = some level)
    (line : IsLine node.children) : ∃ block, Stands setting node block := by
  obtain ⟨own, props, children, span⟩ := node
  obtain rfl : own = .heading := kind
  have hfound : Bag.int? props Key.level = some level := found
  obtain ⟨place, rfl⟩ : ∃ place : Fin 6, level = place + 1 :=
    ⟨⟨(level - 1).toNat, by omega⟩, by simp only; omega⟩
  have hname : ∀ place : Fin 6, let level : Int := place + 1
      "Heading " ++ Number.intText (min (max (if level = 0 then 1 else level) 1) 9) =
        headingName place := by
    decide +kernel
  have hstyle : headingStyle props = headingName place := by
    rw [headingStyle, hfound]
    exact hname place
  obtain ⟨line, hblock, hchars⟩ := exists_lineBlock setting line (some (headingName place)) none
  refine ⟨.heading place line, ?_, ?_, rfl⟩
  · have hcompose : composeBlock setting .outermost ⟨.heading, props, children, span⟩ =
        composeParagraph setting (some (headingStyle props)) none children := rfl
    rw [hcompose, hstyle, hblock]
    rfl
  · rw [PlainBlock.sketch, hchars, ← hfound]
    rfl

lemma exists_paragraph {node : Node} (paragraph : IsParagraph node)
    (filled : Node.textContents node.children ≠ "") : ∃ block, Stands setting node block := by
  obtain ⟨own, props, children, span⟩ := node
  obtain rfl : own = .paragraph := paragraph.kind
  obtain ⟨line, hblock, hchars⟩ := exists_lineBlock setting paragraph.line none
    ((Bag.text? props Key.align).bind Alignment.ofName?)
  have hfilled : line.chars ≠ [] := by
    intro hnone
    have htext := Node.map_fst_styledCharsAmong .plain children
    rw [← hchars, hnone] at htext
    exact filled (String.toList_eq_nil_iff.1 htext.symm)
  refine ⟨.paragraph _ line hfilled, hblock, ?_, rfl⟩
  rw [PlainBlock.sketch, hchars]
  rfl

lemma stands_pageBreak {node : Node} (kind : node.kind = .horizontalRule)
    (on : Bag.isOn node.props Key.pageBreak = true) : Stands setting node .pageBreak := by
  obtain ⟨own, props, children, span⟩ := node
  obtain rfl : own = .horizontalRule := kind
  have hon : Bag.isOn props Key.pageBreak = true := on
  refine ⟨?_, ?_, rfl⟩
  · have hcompose : composeBlock setting .outermost ⟨.horizontalRule, props, children, span⟩ =
        composeRule .outermost props := rfl
    rw [hcompose, composeRule, if_pos ⟨hon, rfl⟩]
    rfl
  · rw [Word.sketch, if_neg (by simp [Kind.horizontalRule, Kind.heading]),
      if_neg (by simp [Kind.horizontalRule, Kind.paragraph]), if_pos ⟨rfl, hon⟩]
    rfl

lemma exists_list {node : Node} (kind : node.kind = .list) (filled : node.children ≠ [])
    (items : ∀ item ∈ node.children, IsItem item) : ∃ block, Stands setting node block := by
  obtain ⟨own, props, children, span⟩ := node
  obtain rfl : own = .list := kind
  obtain ⟨lines, hitems, hlines⟩ := exists_items setting (Bag.isOn props Key.ordered) items
  have hfilled : lines ≠ [] := by
    rintro rfl
    exact filled (List.map_eq_nil_iff.1 hlines.symm)
  exact ⟨.list (Bag.isOn props Key.ordered) lines hfilled, hitems,
    congrArg (Sketch.list _) hlines, rfl⟩

/-- Every block of styled text is written as a plain block of its sketch. -/
theorem exists_stands {node : Node} (h : IsPlainBlock node) :
    ∃ block, Stands setting node block := by
  cases h with
  | heading kind level least most found line =>
    exact exists_heading setting kind least most found line
  | paragraph paragraph filled => exact exists_paragraph setting paragraph filled
  | pageBreak kind on leaf => exact ⟨.pageBreak, stands_pageBreak setting kind on⟩
  | list kind filled items => exact exists_list setting kind filled items
  | table kind first rest width wide children head body =>
    exact exists_table setting kind wide children head body

end Blocks

/-- Neither the node nor a part of it is a footnote. -/
def IsUnnoted (node : Node) : Prop := ∀ part ∈ node.walk, part.kind ≠ .footnoteDef

namespace IsUnnoted

lemma of_children {node : Node} (kind : node.kind ≠ .footnoteDef)
    (children : ∀ child ∈ node.children, IsUnnoted child) : IsUnnoted node :=
  Node.forall_mem_walk_iff.2 ⟨kind, children⟩

lemma of_styled {node : Node} (h : node.IsStyledText) : IsUnnoted node := by
  induction h with
  | text kind leaf =>
    refine of_children (by rw [kind]; decide) ?_
    rw [leaf]
    exact List.forall_mem_nil _
  | styled flag kind parts ih => exact of_children (by rw [kind]; cases flag <;> decide) ih

lemma of_paragraph {node : Node} (h : IsParagraph node) : IsUnnoted node :=
  of_children (by rw [h.kind]; decide) fun child hchild => of_styled (h.line.styled child hchild)

lemma of_row {header : Bool} {width : ℕ} {node : Node} (h : IsRow header width node) :
    IsUnnoted node := by
  refine of_children (by rw [h.kind]; decide) fun cell hcell => ?_
  refine of_children (by rw [(h.cells cell hcell).kind]; decide) fun part hpart => ?_
  rcases (h.cells cell hcell).children with hnone | ⟨paragraph, hparagraph, hsome⟩
  · rw [hnone] at hpart
    cases hpart
  · rw [hsome, List.mem_singleton] at hpart
    exact hpart ▸ of_paragraph hparagraph

theorem of_plain {node : Node} (h : IsPlainBlock node) : IsUnnoted node := by
  cases h with
  | heading kind level least most found line =>
    exact of_children (by rw [kind]; decide) fun child hchild =>
      of_styled (line.styled child hchild)
  | paragraph paragraph filled => exact of_paragraph paragraph
  | pageBreak kind on leaf =>
    refine of_children (by rw [kind]; decide) ?_
    rw [leaf]
    exact List.forall_mem_nil _
  | list kind filled items =>
    refine of_children (by rw [kind]; decide) fun item hitem => ?_
    refine of_children (by rw [(items item hitem).kind]; decide) fun part hpart => ?_
    obtain ⟨paragraph, hparagraph, hchildren⟩ := (items item hitem).children
    rw [hchildren, List.mem_singleton] at hpart
    exact hpart ▸ of_paragraph hparagraph
  | table kind first rest width wide children head body =>
    refine of_children (by rw [kind]; decide) fun row hrow => ?_
    rw [children, List.mem_cons] at hrow
    rcases hrow with rfl | hmem
    · exact of_row head
    · exact of_row (body row hmem)

end IsUnnoted

end Interchange.Word
