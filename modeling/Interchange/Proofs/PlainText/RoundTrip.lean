import Interchange.Layout.Reader
import Interchange.Proofs.Layout.Stacking
import Interchange.Proofs.Text.Encoding
import Interchange.Proofs.Text.Paragraphs

/-!
# Plain documents are read back as they were written

A plain document has page breaks and paragraphs of collapsed text, in any order and number. It is
written without a loss and read back as it was, and reading plain text never gives anything else.
-/
namespace Interchange.PlainText

open Layout (Medium Setting render renderAll stacked followed)

/-- Text in words with single spaces between them. -/
structure Line where
  text : String
  nonempty : text ≠ ""
  collapsed : Text.collapse text.toList = text.toList

inductive Block where
  | pageBreak
  | paragraph (line : Line)

namespace Block

def node : Block → Node
  | .pageBreak => .pageBreak
  | .paragraph line => .paragraph [.text line.text]

/-- What a block is written as. -/
def chars : Block → List Char
  | .pageBreak => Layout.pageBreakText
  | .paragraph line => line.text.toList

end Block

def IsPlain (root : Node) : Prop := ∃ blocks : List Block, root = .document (blocks.map Block.node)

/-- Whether the first block is a paragraph that begins with the byte order mark. -/
def BeginsWithMark (root : Node) : Prop :=
  ∃ line : Line, root.children.head? = some (Block.paragraph line).node ∧
    line.text.toList.head? = some Text.markChar

namespace Block

lemma chars_ne_nil (block : Block) : block.chars ≠ [] := by
  cases block with
  | pageBreak => decide
  | paragraph line =>
    have hne := line.nonempty
    simpa [chars] using hne

lemma render_node (setting : Setting) (block : Block) :
    render setting block.node = .blocks [block.chars] := by
  cases block with
  | pageBreak => rfl
  | paragraph line =>
    change Layout.Rendered.blocks
      (Layout.nonempty (Layout.inlineText [.piece line.text.toList])) = _
    have hne := chars_ne_nil (.paragraph line)
    simpa [Layout.inlineText, Layout.Rendered.toPiece, Layout.nonempty, chars] using hne

lemma losses_node (medium : Medium) (block : Block) :
    Layout.losses medium false block.node = [] := by
  cases block <;> rfl

end Block

lemma nil_notMem_chars (blocks : List Block) : [] ∉ blocks.map Block.chars := by
  intro h
  obtain ⟨block, -, hnil⟩ := List.mem_map.1 h
  exact block.chars_ne_nil hnil

theorem layOut_plain (setting : Setting) (blocks : List Block) :
    Layout.layOut setting (.document (blocks.map Block.node)) =
      stacked (blocks.map Block.chars) := by
  refine Layout.layOut_document rfl (nil_notMem_chars blocks) ?_
  rw [Layout.renderAll_eq_map]
  simp [Node.document, Node.branch, Block.render_node]

theorem losses_plain (medium : Medium) (blocks : List Block) :
    Layout.losses medium false (.document (blocks.map Block.node)) = [] := by
  refine Layout.losses_document rfl fun node hnode => ?_
  obtain ⟨block, -, rfl⟩ := List.mem_map.1 hnode
  exact block.losses_node medium

lemma documentBlocks_cons {page : List (List Char)} {pages : List (List (List Char))}
    (h : pages ≠ []) :
    documentBlocks (page :: pages) = pageBlocks page ++ .pageBreak :: documentBlocks pages := by
  cases pages with
  | nil => exact absurd rfl h
  | cons next pages => simp [documentBlocks, List.intercalate_cons_cons]

lemma documentBlocks_modifyHead {text : List Char} {pages : List (List (List Char))}
    (h : pages ≠ []) :
    documentBlocks (pages.modifyHead (text :: ·)) =
      .paragraph [.text (String.ofList text)] :: documentBlocks pages := by
  cases pages with
  | nil => exact absurd rfl h
  | cons page pages => cases pages <;> simp [documentBlocks, pageBlocks, List.intercalate_cons_cons]

@[simp] lemma pages_followed (cs : List Char) : Text.pages (followed cs) = Text.pages cs := by
  cases cs with
  | nil => rfl
  | cons c cs => simp [followed]

namespace Line

variable (line : Line)

lemma isLineBreak_of_mem : ∀ c ∈ line.text.toList, Text.isLineBreak c = false := by
  intro c hc
  rw [← line.collapsed] at hc
  exact Text.isLineBreak_of_mem_collapse hc

lemma isBlankLine_eq_false : Text.isBlankLine line.text.toList = false := by
  by_contra h
  have hblank : Text.isBlankLine line.text.toList = true := by simpa using h
  have hnil := Text.collapse_eq_nil_iff.2 hblank
  rw [line.collapsed] at hnil
  exact line.nonempty (by simpa using hnil)

end Line

/-- The induction is on the blocks: each is read off the front of the text. -/
theorem documentBlocks_stacked (blocks : List Block) :
    documentBlocks (Text.pages (stacked (blocks.map Block.chars))) = blocks.map Block.node := by
  induction blocks with
  | nil => rfl
  | cons block blocks ih =>
    rw [List.map_cons, List.map_cons, stacked]
    cases block with
    | pageBreak =>
      have hbreak : Block.pageBreak.chars = [Text.formFeed] := rfl
      rw [hbreak, List.singleton_append, Text.pages_formFeed_cons, Text.pages_lineFeed_cons,
        pages_followed, documentBlocks_cons (Text.pages_ne_nil _), ih]
      rfl
    | paragraph line =>
      have hchars : (Block.paragraph line).chars = line.text.toList := rfl
      rw [hchars, Text.pages_append line.isLineBreak_of_mem line.isBlankLine_eq_false
          fun c hc => Layout.head?_followed hc,
        pages_followed, documentBlocks_modifyHead (Text.pages_ne_nil _), ih, line.collapsed,
        String.ofList_toList]
      rfl

lemma exists_pageBlocks {page : List (List Char)}
    (h : ∀ text ∈ page, text ≠ [] ∧ Text.collapse text = text) :
    ∃ blocks : List Block, pageBlocks page = blocks.map Block.node := by
  induction page with
  | nil => exact ⟨[], rfl⟩
  | cons text page ih =>
    obtain ⟨⟨hne, hcollapsed⟩, hrest⟩ := List.forall_mem_cons.1 h
    obtain ⟨blocks, hblocks⟩ := ih hrest
    let line : Line := ⟨String.ofList text, by simpa using hne, by simpa using hcollapsed⟩
    exact ⟨.paragraph line :: blocks, by simpa [pageBlocks, Block.node, line] using hblocks⟩

lemma exists_documentBlocks {pages : List (List (List Char))}
    (h : ∀ page ∈ pages, ∀ text ∈ page, text ≠ [] ∧ Text.collapse text = text) :
    ∃ blocks : List Block, documentBlocks pages = blocks.map Block.node := by
  induction pages with
  | nil => exact ⟨[], rfl⟩
  | cons page pages ih =>
    obtain ⟨hpage, hpages⟩ := List.forall_mem_cons.1 h
    obtain ⟨front, hfront⟩ := exists_pageBlocks hpage
    obtain ⟨back, hback⟩ := ih hpages
    cases pages with
    | nil => exact ⟨front, by simpa [documentBlocks] using hfront⟩
    | cons next pages =>
      refine ⟨front ++ .pageBreak :: back, ?_⟩
      rw [documentBlocks_cons (by simp), hfront, hback, List.map_append, List.map_cons]
      rfl

/-- Whatever the characters, what is read from them is plain. -/
theorem isPlain_documentBlocks (cs : List Char) :
    IsPlain (.document (documentBlocks (Text.pages cs))) := by
  have hpages : ∀ page ∈ Text.pages cs, ∀ text ∈ page,
      text ≠ [] ∧ Text.collapse text = text := by
    intro page hpage text htext
    obtain ⟨piece, -, rfl⟩ := List.mem_map.1 hpage
    exact Text.of_mem_paragraphs htext
  obtain ⟨blocks, hblocks⟩ := exists_documentBlocks hpages
  exact ⟨blocks, by rw [hblocks]⟩

lemma head?_stacked_ne_markChar {blocks : List Block}
    (h : ¬BeginsWithMark (.document (blocks.map Block.node))) :
    (stacked (blocks.map Block.chars)).head? ≠ some Text.markChar := by
  cases blocks with
  | nil => simp [stacked]
  | cons block blocks =>
    cases block with
    | pageBreak =>
      have hbreak : Block.pageBreak.chars = [Text.formFeed] := rfl
      rw [List.map_cons, stacked, hbreak, List.singleton_append, List.head?_cons]
      decide
    | paragraph line =>
      intro hhead
      have hne : line.text.toList ≠ [] := Block.chars_ne_nil (.paragraph line)
      refine h ⟨line, rfl, ?_⟩
      rw [List.map_cons, stacked, Block.chars, List.head?_append_of_ne_nil _ hne] at hhead
      exact hhead

/-- A plain document that does not begin with the byte order mark is written without a loss and read
back as it was; and whatever bytes are read, plain documents are all that comes of them. -/
theorem read_write_plain {doc : Document} (hplain : IsPlain doc.content)
    (hmark : ¬BeginsWithMark doc.content) (writeOptions : WriteOptions)
    (readOptions : ReadOptions) :
    (∃ written reread, Layout.write .plain doc writeOptions = .ok written ∧
      read written.value.toUTF8 readOptions = .ok reread ∧
      reread.value.content = doc.content ∧ written.warnings = [] ∧ reread.warnings = []) ∧
    ∀ data options, ∃ result, read data options = .ok result ∧ IsPlain result.value.content := by
  constructor
  · obtain ⟨blocks, hblocks⟩ := hplain
    rw [hblocks] at hmark ⊢
    let setting : Setting := ⟨.plain, Layout.standardSeparator.toList, .plain, false⟩
    let text := String.ofList (stacked (blocks.map Block.chars))
    have hwritten : Layout.write .plain doc writeOptions = .ok ⟨text, []⟩ := by
      have hloss := losses_plain .plain blocks
      have htext := layOut_plain setting blocks
      rw [← hblocks] at hloss htext
      have hseparator := Layout.separatorFor_of_losses_eq_nil hloss writeOptions
      rw [Layout.write_eq_output .plain hseparator, Layout.output, hloss, htext]
      rfl
    have hdecoded : Reading.decodeText text.toUTF8 = .ok text := by
      apply Reading.decodeText_toUTF8_of_head?_ne
      simpa [text] using head?_stacked_ne_markChar hmark
    refine ⟨⟨text, []⟩, _, hwritten, rfl, ?_, rfl, ?_⟩
    · rw [hdecoded]
      simp [Document.ofContent, Outcome.ok, text, documentBlocks_stacked]
    · rw [hdecoded]
      rfl
  · intro data options
    exact ⟨_, rfl, isPlain_documentBlocks _⟩

theorem read_write_plain_pages :
    let doc := Document.ofContent (.document [.pageBreak, .paragraph [.text "one line"],
      .pageBreak, .pageBreak, .paragraph [.text "é"], .paragraph [.text "\ufeff"]])
    (IsPlain doc.content ∧ ¬BeginsWithMark doc.content) ∧
      (∃ written reread, Layout.write .plain doc .standard = .ok written ∧
        read written.value.toUTF8 .standard = .ok reread ∧
        reread.value.content = doc.content ∧ written.warnings = [] ∧ reread.warnings = []) ∧
      ∀ data options, ∃ result, read data options = .ok result ∧
        IsPlain result.value.content := by
  intro doc
  have hplain : IsPlain doc.content :=
    ⟨[.pageBreak, .paragraph ⟨"one line", by decide, by decide⟩, .pageBreak, .pageBreak,
      .paragraph ⟨"é", by decide, by decide⟩, .paragraph ⟨"\ufeff", by decide, by decide⟩], rfl⟩
  have hmark : ¬BeginsWithMark doc.content := by
    rintro ⟨line, hfirst, -⟩
    have hkind : Kind.horizontalRule = Kind.paragraph :=
      congrArg Node.kind (Option.some.inj hfirst)
    exact absurd hkind (by decide)
  exact ⟨⟨hplain, hmark⟩, read_write_plain hplain hmark .standard .standard⟩

end Interchange.PlainText
