import Interchange.FileTree
import Interchange.Proofs.Word.Citing
import Interchange.Proofs.Word.Rereading
import Interchange.Proofs.Word.Sketch

/-!
# Writing and reading packages

Headings, paragraphs, page breaks, flat lists and tables of styled text are written and read back as
the same blocks, with the same characters in the same styles.
-/
namespace Interchange.Word

open Finding
open Markup (Element)

/-- A run without a picture: it needs no relation. -/
def IsBare (item : RunItem) : Prop := ∃ run, item = .run run ∧ run.picture? = none

def AllBare (paragraphs : List Paragraph) : Prop :=
  ∀ paragraph ∈ paragraphs, ∀ item ∈ paragraph.items, IsBare item

lemma allBare_append {paragraphs others : List Paragraph} (h : AllBare paragraphs)
    (h' : AllBare others) : AllBare (paragraphs ++ others) := by
  intro paragraph hparagraph
  rcases List.mem_append.1 hparagraph with hmem | hmem
  · exact h paragraph hmem
  · exact h' paragraph hmem

lemma allBare_line (style : Option String) (alignment : Option Alignment) (line : PlainLine) :
    AllBare [⟨style, alignment, line.items⟩] := by
  refine List.forall_mem_singleton.2 fun item hitem => ?_
  obtain ⟨piece, -, rfl⟩ := List.mem_map.1 hitem
  refine ⟨piece.run, rfl, ?_⟩
  rw [Piece.run, Run.ofText, Run.picture?, String.toList_ofList,
    ofChars_of_printable piece.printable]
  split <;> rfl

lemma allBare_rows (rows : List (List PlainLine)) : AllBare (paragraphsOfRows (rows.map fun row =>
    row.map fun line => [PlainBlock.lineBlock none none line])) := by
  have hcells (row : List PlainLine) : AllBare (paragraphsOfCells (row.map fun line =>
      [PlainBlock.lineBlock none none line])) := by
    induction row with
    | nil => exact List.forall_mem_nil _
    | cons line row ih => exact allBare_append (allBare_line none none line) ih
  induction rows with
  | nil => exact List.forall_mem_nil _
  | cons row rows ih => exact allBare_append (hcells row) ih

lemma allBare_written (style : Option String) (blocks : List PlainBlock) :
    AllBare (paragraphsOfBlocks (blocks.flatMap (PlainBlock.written style))) := by
  induction blocks with
  | nil => exact List.forall_mem_nil _
  | cons block blocks ih =>
    rw [List.flatMap_cons, paragraphsOfBlocks_append]
    refine allBare_append ?_ ih
    clear ih
    cases block with
    | heading level line => exact allBare_line _ _ line
    | paragraph alignment line filled => exact allBare_line _ _ line
    | pageBreak =>
      exact List.forall_mem_singleton.2 (List.forall_mem_singleton.2 ⟨_, rfl, rfl⟩)
    | list ordered items filled =>
      rw [PlainBlock.written]
      clear filled
      induction items with
      | nil => exact List.forall_mem_nil _
      | cons line items ih => exact allBare_append (allBare_line _ _ line) ih
    | table rows =>
      have hrows := allBare_rows rows
      rw [← List.append_nil (paragraphsOfRows _)] at hrows
      exact hrows

lemma index_of_allBare {composition : Composition}
    (h : AllBare (paragraphsOfBlocks composition.blocks)) :
    composition.urls = [] ∧ composition.pictures = [] := by
  have hitems : ∀ item ∈ composition.items, IsBare item := by
    intro item hitem
    obtain ⟨paragraph, hparagraph, hitem⟩ := List.mem_flatMap.1 hitem
    exact h paragraph hparagraph item hitem
  have hurls : composition.items.filterMap Composition.url? = [] := by
    refine List.filterMap_eq_nil_iff.2 fun item hitem => ?_
    obtain ⟨run, rfl, -⟩ := hitems item hitem
    rfl
  have hpictures :
      (composition.items.flatMap fun item => item.runs.filterMap Run.picture?) = [] := by
    refine List.flatMap_eq_nil_iff.2 fun item hitem => ?_
    obtain ⟨run, rfl, hnone⟩ := hitems item hitem
    rw [RunItem.runs, List.filterMap_cons, hnone]
    rfl
  exact ⟨by rw [Composition.urls, hurls]; rfl, by rw [Composition.pictures, hpictures]; rfl⟩

lemma blockElements_eq_map (index : Index) (blocks : List Block) :
    blockElements index blocks = blocks.map (·.element index) := by
  induction blocks with
  | nil => rfl
  | cons block blocks ih => rw [blockElements, ih, List.map_cons]

/-- A block ends no section. -/
lemma sections_element (index : Index) (block : Block) :
    (if (block.element index).name = w "sectPr" then [block.element index]
      else if (block.element index).name = w "p" then
        ((block.element index).named (w "pPr")).flatMap (·.named (w "sectPr"))
      else []) = [] := by
  cases block with
  | table style rows => cases style <;> simp [Block.element]
  | paragraph p =>
    obtain ⟨style, alignment, items⟩ := p
    have hitems : (items.map (·.element index)).filter (·.name = w "pPr") = [] := by
      refine List.filter_eq_nil_iff.2 fun e he => ?_
      obtain ⟨item, -, rfl⟩ := List.mem_map.1 he
      cases item <;> simp [RunItem.element, Run.element]
    cases style <;> cases alignment <;>
      simp [Block.element, Paragraph.element, hitems, name_valued]

/-- What is read of a body of plain blocks. -/
theorem blocks_body {source : Source} (hstyles : source.styles = some .standard) (index : Index)
    (style : Option String) {blocks : List PlainBlock} (hblocks : Alternate blocks)
    (layout : PageLayout) :
    Body.blocks source (.branch (w "body")
      (blockElements index (blocks.flatMap (PlainBlock.written style)) ++ [layout.element])) =
      pure (blocks.map PlainBlock.node) := by
  have hread : ReadsAs source (blockElements index (blocks.flatMap (PlainBlock.written style)))
      (blocks.flatMap PlainBlock.entries) := by
    rw [blockElements_eq_map, List.map_flatMap]
    clear hblocks
    induction blocks with
    | nil => exact .nil
    | cons block blocks ih => exact (readsAs_written hstyles index style block).append ih
  have hlayout : ReadsAs source [layout.element] [] := by
    refine .singleton ?_
    rw [Body.entries, PageLayout.element, name_branch, if_neg (by simp), if_neg (by simp)]
  obtain ⟨parts, hparts, hentries⟩ := hread.append hlayout
  have hmade := blocksAfter_entries hblocks false [] (fun hne => absurd rfl hne)
  rw [Body.blocks, Element.children_branch, hparts, pure_bind, hentries, List.append_nil,
    Entry.blocks, hmade]
  rfl

/-- The body of a composition is its only section. -/
lemma sections_body (composition : Composition) :
    Section.ofDocument (.branch (w "document") [composition.body]) =
      [composition.layout.element] := by
  have hnone (index : Index) (blocks : List Block) :
      (blockElements index blocks).flatMap (fun e =>
        if e.name = w "sectPr" then [e]
        else if e.name = w "p" then (e.named (w "pPr")).flatMap (·.named (w "sectPr"))
        else []) = [] := by
    rw [blockElements_eq_map, List.flatMap_map, List.flatMap_eq_nil_iff]
    exact fun block _ => sections_element index block
  have hbody : (Element.branch (w "document") [composition.body]).named (w "body") =
      [composition.body] := named_branch _ _ _
  rw [Section.ofDocument, hbody, List.flatMap_singleton, Composition.body,
    Element.children_branch, List.flatMap_append, hnone]
  rfl

/-- A layout has neither a header nor a footer. -/
lemma showsAny?_layout (package : Package) (layout : PageLayout) :
    Section.showsAny? package [layout.element] = some false := by
  have hnone (reference : String) (hreference : reference ≠ "pgSz" ∧ reference ≠ "pgMar") :
      Section.shows? package reference layout.element = some false := by
    have hnamed : layout.element.named (w reference) = [] := by
      simp [PageLayout.element, hreference.1.symm, hreference.2.symm]
    rw [Section.shows?, hnamed]
    rfl
  rw [Section.showsAny?, hnone _ (by decide), hnone _ (by decide)]
  rfl

lemma coreProperties?_package (composition : Composition) :
    composition.package.coreProperties? = some (.ofElement composition.core.toElement) := by
  have hkind : composition.package.relations.ofKind coreRelation =
      [⟨"rIdCore", coreRelation, .part Composition.coreName⟩] := by
    change Relations.ofKind [_, _] _ = _
    decide +kernel
  have hmain : composition.main.name ≠ Composition.coreName := by
    change Composition.documentName ≠ Composition.coreName
    decide
  have hpart : composition.package.part? Composition.coreName = some composition.corePart := by
    have hparts : composition.package.parts = composition.main :: composition.corePart ::
        (composition.footnoteParts ++ composition.pictureParts) := rfl
    rw [Package.part?, hparts, List.find?_cons_of_neg (by simpa using hmain)]
    exact List.find?_cons_of_pos (by simp [Composition.corePart])
  have honly : composition.package.only? composition.package.relations coreRelation =
      some (some composition.core.toElement) := by
    rw [Package.only?, hkind]
    simp only [Relation.part?, Option.bind_eq_bind, Option.bind_some, hpart]
    rfl
  rw [Package.coreProperties?, honly]
  rfl

lemma exists_layout :
    ∃ layout, Section.firstLayout? [PageLayout.standard.element] = some layout := by
  have hsome : (Section.firstLayout? [PageLayout.standard.element]).isSome = true := by
    decide +kernel
  exact Option.isSome_iff_exists.1 hsome

/-- A composition of plain blocks and nothing else, on standard pages. -/
structure IsPlain (composition : Composition) (blocks : List PlainBlock) : Prop where
  written : ∃ style, composition.blocks = blocks.flatMap (PlainBlock.written style)
  footnotes : composition.footnotes = []
  layout : composition.layout = .standard

namespace IsPlain

variable {composition : Composition} {plains : List PlainBlock}

lemma main_eq (h : IsPlain composition plains) : composition.main = ⟨Composition.documentName,
    mainType, .markup (.branch (w "document") [composition.body]), []⟩ := by
  obtain ⟨style, hblocks⟩ := h.written
  have hbare := allBare_written style plains
  rw [← hblocks] at hbare
  obtain ⟨hurls, hpictures⟩ := index_of_allBare hbare
  rw [Composition.main, Composition.linkRelations, Composition.pictureRelations,
    Composition.footnoteRelations, hurls, hpictures, h.footnotes]
  rfl

lemma sections_eq (h : IsPlain composition plains) :
    Section.ofDocument (.branch (w "document") [composition.body]) =
      [PageLayout.standard.element] := by
  rw [sections_body, h.layout]

lemma passOver_standard (h : IsPlain composition plains) :
    passOver composition.package [PageLayout.standard.element] = pure () := by
  have hmain : composition.package.main = _ := h.main_eq
  unfold passOver
  rw [showsAny?_layout, hmain]
  rfl

lemma blocks_package (h : IsPlain composition plains) (hplains : Alternate plains) (embeds : Bool) :
    blocks composition.package (.branch (w "document") [composition.body]) [] embeds =
      pure (plains.map PlainBlock.node) := by
  obtain ⟨style, hwritten⟩ := h.written
  have hmain : composition.package.main = _ := h.main_eq
  have hstyles : (composition.package.source [] embeds).styles = some .standard := by
    rw [Package.source, Package.styles?, Package.only?, hmain]
    rfl
  have hbody : (Element.branch (w "document") [composition.body]).first? (w "body") =
      some composition.body := first?_branch _ _ _
  have hread := blocks_body hstyles composition.index style hplains composition.layout
  rw [← hwritten] at hread
  have hnotices : (Footnote.notices []).forM note = pure () := rfl
  rw [blocks, hnotices, h.sections_eq, h.passOver_standard, hbody, need_some, pure_bind,
    pure_bind, pure_bind, Composition.body, hread, pure_bind]
  exact congrArg pure (List.append_nil _)

/-- A plain composition is read as its blocks. -/
theorem read_package (h : IsPlain composition plains) (hplains : Alternate plains)
    (options : ReadOptions) : ∃ result, read composition.package options = .ok result ∧
      result.value.content = .document (plains.map PlainBlock.node) := by
  obtain ⟨layout, hlayout⟩ := exists_layout
  have hmain : composition.package.main = _ := h.main_eq
  have hroot : composition.package.main.root? =
      some (.branch (w "document") [composition.body]) := by
    rw [hmain]
    rfl
  have hfootnotes : Footnote.ofPackage? composition.package = some [] := by
    rw [Footnote.ofPackage?, Footnote.root?, hmain]
    rfl
  have hrun : (blocks composition.package (.branch (w "document") [composition.body]) []
      options.embeds).run .none = some (plains.map PlainBlock.node, .none) := by
    rw [h.blocks_package hplains]
    rfl
  have hdocument : document? composition.package options = some
      ⟨⟨.document (plains.map PlainBlock.node),
        (CoreProperties.ofElement composition.core.toElement).toBag,
        Reading.sourceInfo options formatName layout, Findings.none.resources⟩,
        Notice.settle Findings.none.notices⟩ := by
    simp only [document?, hroot, hfootnotes, hrun, coreProperties?_package, h.sections_eq, hlayout,
      Option.bind_eq_bind, Option.bind_some]
  exact ⟨_, by rw [read, hdocument], rfl⟩

end IsPlain

/-- The blocks of a plain document are written as plain blocks of the same sketches. -/
lemma exists_plains (setting : Setting) {nodes : List Node}
    (h : ∀ node ∈ nodes, IsPlainBlock node) :
    ∃ plains : List PlainBlock,
      (composeBlocks setting .outermost nodes).value =
        plains.flatMap (PlainBlock.written setting.tableStyle) ∧
      plains.map PlainBlock.sketch = nodes.map sketch ∧
      plains.map PlainBlock.listKind? = nodes.map listKind? := by
  induction nodes with
  | nil => exact ⟨[], rfl, rfl, rfl⟩
  | cons node nodes ih =>
    obtain ⟨hnode, hnodes⟩ := List.forall_mem_cons.1 h
    obtain ⟨block, hblock⟩ := exists_stands setting hnode
    obtain ⟨plains, hwritten, hsketches, hkinds⟩ := ih hnodes
    refine ⟨block :: plains, ?_, ?_, ?_⟩
    · rw [composeBlocks, Noted.bind_value, Noted.bind_value, Noted.pure_value, hblock.written,
        hwritten, List.flatMap_cons]
    · rw [List.map_cons, List.map_cons, hblock.sketch, hsketches]
    · rw [List.map_cons, List.map_cons, hblock.listKind, hkinds]

/-- The standard options are never at fault. -/
lemma write_standard (doc : Document) : ∃ configure style,
    write doc .standard = .ok (composeDocument doc .standard configure style).outcome := by
  have hstyle : (tableStyle ((Settings.merge writeSettings WriteOptions.standard.extra).getOr
      tableStyleName (.text standardTableStyle))).toOption = some (some "TableGrid") := by
    decide +kernel
  unfold write
  dsimp only
  split
  · exact ⟨_, _, rfl⟩
  · next hfault =>
    rw [hfault] at hstyle
    cases hstyle

/-- A plain document is written, and what is written is plain. -/
theorem write_plain {doc : Document} (h : IsPlainDocument doc) :
    ∃ written plains, write doc .standard = .ok written ∧ IsPlain written.value plains ∧
      Alternate plains ∧ plains.map PlainBlock.sketch = doc.content.children.map sketch := by
  obtain ⟨configure, style, hwrite⟩ := write_standard doc
  have hnotes : footnoteNodes doc = [] := by
    refine List.filter_eq_nil_iff.2 fun part hpart => ?_
    have hroot : IsUnnoted doc.content := .of_children (by rw [h.root]; decide)
      fun block hblock => .of_plain (h.blocks block hblock)
    exact fun hkind => hroot part hpart (of_decide_eq_true hkind)
  have hcontent (setting : Setting) : composeBlock setting .outermost doc.content =
      composeBlocks setting .outermost doc.content.children := by
    have hroot := h.root
    revert hroot
    obtain ⟨kind, props, children, span⟩ := doc.content
    rintro rfl
    rfl
  obtain ⟨plains, hblocks, hsketches, hkinds⟩ :=
    exists_plains ⟨doc, footnoteNumbers (footnoteNodes doc), style⟩ h.blocks
  rw [← hcontent] at hblocks
  have hfootnotes : (composeFootnotes (footnoteNodes doc)).value = [] := by
    rw [hnotes]
    rfl
  have hplain : IsPlain (composeDocument doc .standard configure style).value plains :=
    ⟨⟨style, hblocks⟩, hfootnotes, rfl⟩
  have hapart : Alternate plains := by
    let apart (kind next : Option Bool) : Prop := kind = none ∨ kind ≠ next
    have hkept : (doc.content.children.map listKind?).IsChain apart :=
      (List.isChain_map listKind?).2 h.apart
    rw [← hkinds] at hkept
    exact (List.isChain_map PlainBlock.listKind?).1 hkept
  exact ⟨_, plains, hwrite, hplain, hapart, hsketches⟩

/-- Headings, paragraphs, page breaks, flat lists and tables of styled text are read back from what
they are written as: as many blocks of the same kinds, built up alike, with the same characters in
the same styles. -/
theorem read_write_sketch {doc : Document} (h : IsPlainDocument doc) (options : ReadOptions) :
    ∃ written result, write doc .standard = .ok written ∧
      (Payload.composition written.value).readPackage options = .ok result ∧
      result.value.content.kind = .document ∧
      result.value.content.children.map sketch = doc.content.children.map sketch := by
  obtain ⟨written, plains, hwrite, hplain, hapart, hsketches⟩ := write_plain h
  obtain ⟨result, hread, hcontent⟩ := hplain.read_package hapart options
  refine ⟨written, result, hwrite, hread, by rw [hcontent]; rfl, ?_⟩
  have hblocks : (plains.map PlainBlock.node).map sketch = plains.map PlainBlock.sketch := by
    rw [List.map_map]
    exact List.map_congr_left fun block _ => block.sketch_node
  rw [hcontent, ← hsketches, ← hblocks]
  rfl

/-- One block of every kind, lists of both kinds in a row, and styles inside each other. -/
theorem read_write_sketch_report :
    let doc := Document.ofContent (.document [
      .heading 2 [.text "Plan ", .branch .strong [.text "B"]],
      .paragraph [.text "a ", .branch .emphasis [.text "b", .branch .underline [.text " c"]]],
      .list false [.listItem [.paragraph [.text "one"]], .listItem [.paragraph []]],
      .list true [.listItem [.paragraph [.branch .strikeout [.text "two"]]]],
      .pageBreak,
      .table [
        .tableRow [.tableCell true [.paragraph [.text "name"]], .tableCell true []],
        .tableRow [.tableCell false [], .tableCell false [.paragraph [.text "value"]]]]])
    IsPlainDocument doc ∧ ∃ written result, write doc .standard = .ok written ∧
      (Payload.composition written.value).readPackage .standard = .ok result ∧
      result.value.content.kind = .document ∧
      result.value.content.children.map sketch = doc.content.children.map sketch := by
  intro doc
  have one {P : Node → Prop} {node : Node} (h : P node) : ∀ part ∈ [node], P part :=
    List.forall_mem_singleton.2 h
  have two {P : Node → Prop} {first second : Node} (h : P first) (h' : P second) :
      ∀ part ∈ [first, second], P part := List.forall_mem_cons.2 ⟨h, one h'⟩
  have text (content : String) : (Node.text content).IsStyledText := .text rfl rfl
  have styled (flag : StyleFlag) {parts : List Node} (h : ∀ part ∈ parts, part.IsStyledText) :
      (Node.branch flag.kind parts).IsStyledText := .styled flag rfl h
  have line {nodes : List Node} (h : ∀ node ∈ nodes, node.IsStyledText)
      (hchars : (Node.textContents nodes).toList.all
        (fun c => decide (' ' ≤ c) && Markup.isAllowed c) = true) : IsLine nodes :=
    ⟨h, fun c hc => by simpa [IsHeld] using List.all_eq_true.1 hchars c hc⟩
  have item {nodes : List Node} (h : IsLine nodes) : IsItem (.listItem [.paragraph nodes]) :=
    ⟨rfl, _, ⟨rfl, h⟩, rfl⟩
  have blank (header : Bool) : IsCell header (.tableCell header []) :=
    ⟨rfl, by cases header <;> rfl, .inl rfl⟩
  have filled (header : Bool) {nodes : List Node} (h : IsLine nodes) :
      IsCell header (.tableCell header [.paragraph nodes]) :=
    ⟨rfl, by cases header <;> rfl, .inr ⟨_, ⟨rfl, h⟩, rfl⟩⟩
  have hheading : IsLine [.text "Plan ", .branch .strong [.text "B"]] :=
    line (two (text _) (styled .bold (one (text _)))) (by decide +kernel)
  have hparagraph : IsLine
      [.text "a ", .branch .emphasis [.text "b", .branch .underline [.text " c"]]] :=
    line (two (text _) (styled .italic (two (text _) (styled .underline (one (text _))))))
      (by decide +kernel)
  have hbullets : ∀ node ∈ [.listItem [.paragraph [.text "one"]], .listItem [.paragraph []]],
      IsItem node :=
    two (item (line (one (text _)) (by decide +kernel))) (item (line nofun (by decide +kernel)))
  have hnumbers : ∀ node ∈ [.listItem [.paragraph [.branch .strikeout [.text "two"]]]],
      IsItem node :=
    one (item (line (one (styled .strikethrough (one (text _)))) (by decide +kernel)))
  have hhead : IsRow true 2
      (.tableRow [.tableCell true [.paragraph [.text "name"]], .tableCell true []]) :=
    ⟨rfl, rfl, two (filled true (line (one (text _)) (by decide +kernel))) (blank true)⟩
  have hbody : IsRow false 2
      (.tableRow [.tableCell false [], .tableCell false [.paragraph [.text "value"]]]) :=
    ⟨rfl, rfl, two (blank false) (filled false (line (one (text _)) (by decide +kernel)))⟩
  have hblocks : ∀ block ∈ doc.content.children, IsPlainBlock block := by
    refine List.forall_mem_cons.2 ⟨.heading rfl 2 (by decide) (by decide) (by decide) hheading, ?_⟩
    refine List.forall_mem_cons.2 ⟨.paragraph ⟨rfl, hparagraph⟩ (by decide), ?_⟩
    refine List.forall_mem_cons.2 ⟨.list rfl nofun hbullets, ?_⟩
    refine List.forall_mem_cons.2 ⟨.list rfl nofun hnumbers, ?_⟩
    exact two (.pageBreak rfl rfl rfl) (.table rfl _ _ 2 (by decide) rfl hhead (one hbody))
  have hdoc : IsPlainDocument doc := ⟨rfl, hblocks, by decide +kernel⟩
  exact ⟨hdoc, read_write_sketch hdoc .standard⟩

end Interchange.Word
