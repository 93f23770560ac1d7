import Interchange.Layout.Reader
import Interchange.Proofs.Terminal.Showing
import Interchange.Proofs.Text.Encoding
import Interchange.Proofs.Text.Paragraphs

/-!
# Styled paragraphs are read back as they were written

Paragraphs of text in the four styles, however they are nested, are written for a terminal and read
back: as many paragraphs, in each the same characters, and around each character the same styles.
-/
namespace Interchange.Terminal

open Layout (Medium Setting stacked followed)

/-- A paragraph of styled text that is on one line and shows something. -/
structure IsStyledParagraph (node : Node) : Prop where
  kind : node.kind = .paragraph
  parts : ∀ part ∈ node.children, part.IsStyledText
  clean : ∀ c ∈ node.textContent.toList, c ≠ escapeChar ∧ Text.isLineBreak c = false
  shown : ∃ c ∈ node.textContent.toList, Text.isBlank c = false

lemma losses_of_isStyledText {node : Node} (h : node.IsStyledText) :
    Layout.losses .terminal false node = [] := by
  induction h with
  | @text node kind leaf =>
    obtain ⟨kind, props, children, span⟩ := node
    subst kind leaf
    rfl
  | @styled node flag kind parts ih =>
    obtain ⟨kind, props, children, span⟩ := node
    subst kind
    have hparts := Layout.flatMap_reachedAmong_eq_nil ih
    cases flag <;> exact hparts

/-- A line that shows the given characters, and is not hidden from a reader. -/
structure ShowsLine (line : List Char) (shown : List (Char × TextStyle)) : Prop where
  shows : Shows .plain line shown
  visible : isHidden line = false

lemma ShowsLine.ne_nil {line : List Char} {shown : List (Char × TextStyle)}
    (h : ShowsLine line shown) : line ≠ [] := by
  rintro rfl
  have hvisible := h.visible
  rw [isHidden, stripEscapes_nil] at hvisible
  cases hvisible

theorem IsStyledParagraph.exists_line {node : Node} (h : IsStyledParagraph node)
    {setting : Setting} (hmedium : setting.medium = .terminal) (hplain : setting.active = .plain) :
    ∃ line, Layout.render setting node = .blocks [line] ∧
      ShowsLine line (node.styledChars .plain) := by
  obtain ⟨hkind, hparts, hclean, c, hc, hblank⟩ := h
  obtain ⟨kind, props, children, span⟩ := node
  obtain rfl : kind = .paragraph := hkind
  let inner : Setting := { setting with inList := false }
  let line := Layout.inlineText (Layout.renderAll inner children)
  have hchars : (Node.mk .paragraph props children span).styledChars .plain =
      Node.styledCharsAmong .plain children := rfl
  have hnodes : ∀ part ∈ children, ShowsNode inner part := fun part hpart =>
    showsNode_of_isStyledText (hparts part hpart) hmedium fun c hc =>
      hclean c (Node.mem_textContent_of_mem_children hpart hc)
  have hshows : Shows .plain line (Node.styledCharsAmong .plain children) := by
    have hline := shows_inlineText hnodes
    have hactive : inner.active = .plain := hplain
    rwa [hactive] at hline
  have hmem : c ∈ stripEscapes line := by
    rw [stripEscapes, visible_eq_map_shownIn .plain, hshows.shownIn_eq, ← hchars,
      Node.map_fst_styledChars]
    exact hc
  have hvisible : isHidden line = false := by
    rw [isHidden, Text.isBlankLine, List.all_eq_false]
    exact ⟨c, hmem, by simp [hblank]⟩
  have hline : ShowsLine line (Node.styledCharsAmong .plain children) := ⟨hshows, hvisible⟩
  refine ⟨line, ?_, hline⟩
  change Layout.Rendered.blocks (Layout.nonempty line) = .blocks [line]
  rw [Layout.nonempty, if_neg (by simpa using hline.ne_nil)]

lemma IsStyledParagraph.losses_eq_nil {node : Node} (h : IsStyledParagraph node) :
    Layout.losses .terminal false node = [] := by
  obtain ⟨kind, props, children, span⟩ := node
  obtain rfl : kind = .paragraph := h.kind
  exact Layout.flatMap_reachedAmong_eq_nil fun part hpart =>
    losses_of_isStyledText (h.parts part hpart)

/-- A document of styled paragraphs is written as lines that show them, one for each. -/
theorem exists_lines {doc : Document} (hroot : doc.content.kind = .document)
    (hparagraphs : ∀ node ∈ doc.content.children, IsStyledParagraph node)
    (options : WriteOptions) :
    ∃ lines, Layout.write .terminal doc options = .ok ⟨String.ofList (stacked lines), []⟩ ∧
      List.Forall₂ ShowsLine lines (doc.content.children.map (Node.styledChars .plain)) := by
  let setting : Setting := ⟨.terminal, Layout.standardSeparator.toList, .plain, false⟩
  have hline : ∀ node ∈ doc.content.children, ∃ line,
      Layout.render setting node = .blocks [line] ∧ ShowsLine line (node.styledChars .plain) :=
    fun node hnode => (hparagraphs node hnode).exists_line rfl rfl
  choose! lineOf hrender hshows using hline
  have hne : [] ∉ doc.content.children.map lineOf := by
    intro hnil
    obtain ⟨node, hnode, hempty⟩ := List.mem_map.1 hnil
    exact (hshows node hnode).ne_nil hempty
  have hlayout : Layout.layOut setting doc.content = stacked (doc.content.children.map lineOf) := by
    refine Layout.layOut_document hroot hne ?_
    rw [Layout.renderAll_eq_map, List.map_map]
    exact List.map_congr_left hrender
  have hloss : Layout.losses .terminal false doc.content = [] :=
    Layout.losses_document hroot fun node hnode => (hparagraphs node hnode).losses_eq_nil
  have hseparator := Layout.separatorFor_of_losses_eq_nil hloss options
  refine ⟨doc.content.children.map lineOf, ?_, ?_⟩
  · rw [Layout.write_eq_output .terminal hseparator, Layout.output, hloss, hlayout]
    rfl
  · rw [List.forall₂_map_left_iff, List.forall₂_map_right_iff, List.forall₂_same]
    exact hshows

lemma splitLines_followed {cs : List Char} (h : cs ≠ []) :
    Text.splitLines (followed cs) = [] :: Text.splitLines cs := by
  rw [followed, if_neg (by simpa using h), Text.splitLines_lineFeed_cons]

/-- The induction is on the lines: after each paragraph the scanner is where it started. -/
theorem paragraphsFrom_stacked {lines : List (List Char)}
    {shown : List (List (Char × TextStyle))} (h : List.Forall₂ ShowsLine lines shown) :
    paragraphsFrom .start [] (Text.splitLines (stacked lines)) =
      (lines.map Scanner.start.runs, .start) := by
  induction h with
  | nil => rfl
  | @cons line _ lines _ hline hlines ih =>
    obtain ⟨hshows, hvisible⟩ := hline
    have hafter : Scanner.start.after line = .start := hshows.after_eq [] 0
    have hclosed : closeParagraph .start [line] = ([Scanner.start.runs line], .start) := by
      simp [closeParagraph, Scanner.feed, hafter]
    rw [stacked, Text.splitLines_append hshows.unbroken, paragraphsFrom,
      if_neg (by simp [hvisible])]
    cases lines with
    | nil =>
      rw [stacked, Layout.followed_nil, Text.splitLines, paragraphsFrom, hclosed]
      rfl
    | cons next lines =>
      have hne : stacked (next :: lines) ≠ [] := by simp [stacked]
      have hempty : isHidden [] = true := by
        rw [isHidden, stripEscapes_nil]
        rfl
      rw [splitLines_followed hne, paragraphsFrom, if_pos hempty, hclosed]
      dsimp only
      rw [Scanner.after_nil, ih]
      rfl

lemma read_eq (data : ByteArray) (options : ReadOptions) :
    ∃ result, read data options = .ok result ∧ result.value.content.kind = .document ∧
      result.value.content.children = (paragraphs (Reading.decodeText data).value.toList).1.map
        (fun runs => .paragraph (runs.map Run.node)) ∧
      result.warnings = (Reading.decodeText data).warnings ++
        scanWarnings (paragraphs (Reading.decodeText data).value.toList).2 := by
  cases hfound : paragraphs (Reading.decodeText data).value.toList
  simp only [read, hfound]
  exact ⟨_, rfl, rfl, rfl, rfl⟩

lemma read_of_paragraphs {data : ByteArray} (options : ReadOptions) {text : String}
    {found : List (List Run)} {scanner : Scanner} (htext : Reading.decodeText data = .ok text)
    (hfound : paragraphs text.toList = (found, scanner)) :
    ∃ result, read data options = .ok result ∧
      result.value.content.children = found.map (fun runs => .paragraph (runs.map Run.node)) ∧
      result.warnings = scanWarnings scanner := by
  obtain ⟨result, hread, -, hchildren, hwarnings⟩ := read_eq data options
  rw [htext, Outcome.ok, hfound] at hchildren hwarnings
  exact ⟨result, hread, hchildren, hwarnings⟩

lemma styledChars_runNode (run : Run) : run.node.styledChars .plain = run.shown := by
  rw [Run.node, Node.styledChars_styled_text, Run.shown, String.toList_ofList]

lemma styledChars_paragraph (runs : List Run) :
    (Node.paragraph (runs.map Run.node)).styledChars .plain = runs.flatMap Run.shown := by
  have hparts : (Node.paragraph (runs.map Run.node)).styledChars .plain =
      Node.styledCharsAmong .plain (runs.map Run.node) := rfl
  rw [hparts, Node.styledCharsAmong_eq_flatMap, List.flatMap_map]
  simp only [styledChars_runNode]

/-- The paragraph that is read from a line has the characters that the line shows. -/
theorem styledChars_of_showsLine {line : List Char} {shown : List (Char × TextStyle)}
    (h : ShowsLine line shown) :
    (Node.paragraph ((Scanner.start.runs line).map Run.node)).styledChars .plain = shown := by
  have hruns := shown_runsFrom .plain [] (tokens line)
  rw [h.shows.shownIn_eq] at hruns
  rw [styledChars_paragraph]
  exact hruns

/-- Styled paragraphs are written without a loss and read back without one, as many as there were,
each with the same characters in the same styles. -/
theorem read_write_styled {doc : Document} (hroot : doc.content.kind = .document)
    (hparagraphs : ∀ node ∈ doc.content.children, IsStyledParagraph node)
    (writeOptions : WriteOptions) (readOptions : ReadOptions)
    (hmark : ∀ written, Layout.write .terminal doc writeOptions = .ok written →
      written.value.toList.head? ≠ some Text.markChar) :
    ∃ written reread, Layout.write .terminal doc writeOptions = .ok written ∧
      read written.value.toUTF8 readOptions = .ok reread ∧
      (∀ node ∈ reread.value.content.children, node.kind = .paragraph) ∧
      reread.value.content.children.map (Node.styledChars .plain) =
        doc.content.children.map (Node.styledChars .plain) ∧
      written.warnings = [] ∧ reread.warnings = [] := by
  obtain ⟨lines, hwritten, hlines⟩ := exists_lines hroot hparagraphs writeOptions
  have hdecoded := Reading.decodeText_toUTF8_of_head?_ne (hmark _ hwritten)
  have hparsed : paragraphs (String.ofList (stacked lines)).toList =
      (lines.map Scanner.start.runs, .start) := by
    rw [String.toList_ofList]
    exact paragraphsFrom_stacked hlines
  obtain ⟨reread, hread, hchildren, hwarnings⟩ :=
    read_of_paragraphs readOptions hdecoded hparsed
  refine ⟨_, reread, hwritten, hread, ?_, ?_, rfl, hwarnings⟩
  · rw [hchildren]
    intro node hnode
    obtain ⟨runs, -, rfl⟩ := List.mem_map.1 hnode
    rfl
  · have hshown := hlines.imp fun line shown h => styledChars_of_showsLine h
    rw [← List.forall₂_map_left_iff, List.forall₂_eq_eq_eq] at hshown
    rw [hchildren, List.map_map, List.map_map]
    exact hshown

/-- A style inside itself, and two styles around one text, next to plain text. -/
theorem read_write_styled_nested :
    let doc := Document.ofContent (.document [
      .paragraph [.branch .strong [.text "a", .branch .emphasis [.branch .strong [.text " b"]]],
        .text "[c"],
      .paragraph [.branch .underline [.branch .strikeout [.text "\u00e9 m"], .text ""]]])
    (doc.content.kind = .document ∧ (∀ node ∈ doc.content.children, IsStyledParagraph node) ∧
      ∀ written, Layout.write .terminal doc .standard = .ok written →
        written.value.toList.head? ≠ some Text.markChar) ∧
      ∃ written reread, Layout.write .terminal doc .standard = .ok written ∧
        read written.value.toUTF8 .standard = .ok reread ∧
        (∀ node ∈ reread.value.content.children, node.kind = .paragraph) ∧
        reread.value.content.children.map (Node.styledChars .plain) =
          doc.content.children.map (Node.styledChars .plain) ∧
        written.warnings = [] ∧ reread.warnings = [] := by
  intro doc
  have leaf (content : String) : (Node.text content).IsStyledText := .text rfl rfl
  have wrapped (flag : StyleFlag) {parts : List Node} (h : ∀ part ∈ parts, part.IsStyledText) :
      (Node.branch flag.kind parts).IsStyledText := .styled flag rfl h
  have clean (node : Node) (h : node.textContent.toList.all (fun c =>
      decide (c ≠ escapeChar) && !Text.isLineBreak c) = true) :
      ∀ c ∈ node.textContent.toList, c ≠ escapeChar ∧ Text.isLineBreak c = false := by
    simpa using h
  have hparagraphs : ∀ node ∈ doc.content.children, IsStyledParagraph node := by
    refine List.forall_mem_cons.2 ⟨⟨rfl, ?_, clean _ (by decide +kernel), ?_⟩,
      List.forall_mem_singleton.2 ⟨rfl, ?_, clean _ (by decide +kernel), ?_⟩⟩
    · have hinner := wrapped .bold (List.forall_mem_singleton.2 (leaf " b"))
      have hemphasis := wrapped .italic (List.forall_mem_singleton.2 hinner)
      have hstrong := wrapped .bold
        (List.forall_mem_cons.2 ⟨leaf "a", List.forall_mem_singleton.2 hemphasis⟩)
      exact List.forall_mem_cons.2 ⟨hstrong, List.forall_mem_singleton.2 (leaf "[c")⟩
    · exact ⟨'a', by decide +kernel, by decide⟩
    · have hstrikeout := wrapped .strikethrough (List.forall_mem_singleton.2 (leaf "\u00e9 m"))
      exact List.forall_mem_singleton.2 (wrapped .underline
        (List.forall_mem_cons.2 ⟨hstrikeout, List.forall_mem_singleton.2 (leaf "")⟩))
    · exact ⟨'m', by decide +kernel, by decide⟩
  have hmark : ∀ written, Layout.write .terminal doc .standard = .ok written →
      written.value.toList.head? ≠ some Text.markChar := by
    intro written hwritten
    obtain rfl := Except.ok.inj hwritten
    decide +kernel
  exact ⟨⟨rfl, hparagraphs, hmark⟩, read_write_styled rfl hparagraphs .standard .standard hmark⟩

end Interchange.Terminal
