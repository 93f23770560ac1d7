import Interchange.Proofs.Terminal.Joining
import Interchange.Proofs.Terminal.RoundTrip

/-!
# Paragraphs and their lines

A paragraph is read from the lines between two that show nothing, all at once. Where every sequence
ends in its line this is as good as reading line after line: each line keeps its text, and each
character has the style that it has on a terminal. A sequence that is broken off at the end of a
line takes text of the next line with it.
-/
namespace Interchange.Terminal

/-- Lines with a blank between each two of them. -/
def joined (lines : List (List Char)) : List Char := List.intercalate [' '] lines

@[simp] lemma joined_nil : joined [] = [] := rfl

@[simp] lemma joined_singleton (line : List Char) : joined [line] = line :=
  List.intercalate_singleton

lemma joined_cons (line : List Char) {lines : List (List Char)} (h : lines ≠ []) :
    joined (line :: lines) = line ++ ' ' :: joined lines := by
  cases lines with
  | nil => exact absurd rfl h
  | cons next lines =>
    rw [joined, List.intercalate_cons_cons, List.append_assoc]
    rfl

lemma joined_concat {lines : List (List Char)} (h : lines ≠ []) (line : List Char) :
    joined (lines ++ [line]) = joined lines ++ ' ' :: line := by
  induction lines with
  | nil => exact absurd rfl h
  | cons first lines ih =>
    by_cases hlines : lines = []
    · subst hlines
      simp [joined_cons]
    · rw [List.cons_append, joined_cons _ (by simp), ih hlines, joined_cons _ hlines,
        List.append_assoc]
      rfl

/-- Lines all but the last of which have ended their sequences keep their text when joined. -/
theorem stripEscapes_joined {lines : List (List Char)}
    (h : ∀ line ∈ lines.dropLast, endsOpen line = false) :
    stripEscapes (joined lines) = joined (lines.map stripEscapes) := by
  induction lines with
  | nil => exact stripEscapes_nil
  | cons line lines ih =>
    by_cases hlines : lines = []
    · subst hlines
      simp
    · rw [List.dropLast_cons_of_ne_nil hlines] at h
      obtain ⟨hline, hrest⟩ := List.forall_mem_cons.1 h
      rw [joined_cons _ hlines, stripEscapes_append_blank hline, ih hrest, List.map_cons,
        joined_cons _ (by simpa using hlines)]

/-- The first line that leaves a sequence open loses text of the lines below it, unless these have
sequences of their own that are cut in turn. -/
theorem length_stripEscapes_joined_lt {above below : List (List Char)} {line : List Char}
    (habove : ∀ line ∈ above, endsOpen line = false) (hline : endsOpen line = true)
    (hne : below ≠ []) (hbelow : ∀ line ∈ below, escapeChar ∉ line) :
    (stripEscapes (joined (above ++ line :: below))).length <
      (joined ((above ++ line :: below).map stripEscapes)).length := by
  induction above with
  | nil =>
    -- the lines below are all visible, so what the open sequence takes from them is text
    have hbare : escapeChar ∉ joined below := by
      intro hmem
      obtain ⟨line, hmem, hescape⟩ | hblank := Text.mem_intercalate hmem
      · exact hbelow line hmem hescape
      · exact absurd hblank (by decide)
    have hsame : below.map stripEscapes = below := by
      calc below.map stripEscapes = below.map id :=
            List.map_congr_left fun line hmem => stripEscapes_of_notMem (hbelow line hmem)
        _ = below := List.map_id below
    rw [List.nil_append, joined_cons _ hne, List.map_cons, hsame, joined_cons _ hne]
    exact length_stripEscapes_append_blank_lt hline hbare
  | cons first above ih =>
    obtain ⟨hfirst, hrest⟩ := List.forall_mem_cons.1 habove
    have hshorter := ih hrest
    rw [List.cons_append, joined_cons _ (by simp), stripEscapes_append_blank hfirst,
      List.map_cons, joined_cons _ (by simp)]
    simpa using hshorter

section Paragraphs

variable {scanner : Scanner} {reversed lines : List (List Char)} {line : List Char}

lemma closeParagraph_of_ne_nil (scanner : Scanner) (h : reversed ≠ []) :
    closeParagraph scanner reversed =
      ([scanner.runs (joined reversed.reverse)], scanner.after (joined reversed.reverse)) := by
  rw [closeParagraph, if_neg (by simpa using h)]
  rfl

lemma closeParagraph_snd (scanner : Scanner) (reversed : List (List Char)) :
    (closeParagraph scanner reversed).2 = scanner.after (joined reversed.reverse) := by
  by_cases hnil : reversed = []
  · subst hnil
    exact (Scanner.after_nil scanner).symm
  · rw [closeParagraph_of_ne_nil scanner hnil]

lemma paragraphsFrom_of_hidden (h : isHidden line = true) :
    paragraphsFrom scanner reversed (line :: lines) =
      let rest := paragraphsFrom ((scanner.after (joined reversed.reverse)).after line) [] lines
      ((closeParagraph scanner reversed).1 ++ rest.1, rest.2) := by
  rw [paragraphsFrom, if_pos h, ← closeParagraph_snd]

lemma paragraphsFrom_of_visible (h : isHidden line = false) :
    paragraphsFrom scanner reversed (line :: lines) =
      paragraphsFrom scanner (line :: reversed) lines := by
  rw [paragraphsFrom, if_neg (by simp [h])]

/-- What is read from a run of lines all at once, in whatever style. -/
def ReadTogether (run : List (List Char)) (runs : List Run) : Prop :=
  ∃ before : Scanner, runs = before.runs (joined run)

/-- A paragraph that is closed is the run of its lines. -/
lemma exists_groupLines_append (scanner : Scanner) (h : ∀ line ∈ reversed, isHidden line = false)
    (hlines : ∀ next ∈ lines.head?, isHidden next = true) :
    ∃ closed, Text.groupLines isHidden (reversed.reverse ++ lines) =
        closed ++ Text.groupLines isHidden lines ∧
      List.Forall₂ ReadTogether closed (closeParagraph scanner reversed).1 := by
  by_cases hnil : reversed = []
  · subst hnil
    exact ⟨[], rfl, .nil⟩
  · refine ⟨[reversed.reverse], ?_, ?_⟩
    · exact Text.groupLines_append (by simpa using hnil) (by simpa using h) hlines
    · rw [closeParagraph_of_ne_nil scanner hnil]
      exact .cons ⟨scanner, rfl⟩ .nil

/-- Each run of lines between hidden ones becomes a paragraph. -/
theorem forall₂_paragraphsFrom (scanner : Scanner) (reversed lines : List (List Char))
    (h : ∀ line ∈ reversed, isHidden line = false) :
    List.Forall₂ ReadTogether (Text.groupLines isHidden (reversed.reverse ++ lines))
      (paragraphsFrom scanner reversed lines).1 := by
  induction lines generalizing scanner reversed with
  | nil =>
    have hend : ∀ next ∈ ([] : List (List Char)).head?, isHidden next = true := by simp
    obtain ⟨closed, hgroups, hclosed⟩ := exists_groupLines_append scanner h hend
    rw [hgroups, Text.groupLines, List.append_nil]
    exact hclosed
  | cons line lines ih =>
    cases hline : isHidden line with
    | true =>
      have hnext : ∀ next ∈ (line :: lines).head?, isHidden next = true := by simpa using hline
      obtain ⟨closed, hgroups, hclosed⟩ := exists_groupLines_append scanner h hnext
      rw [hgroups, Text.groupLines_cons_of_separates hline, paragraphsFrom_of_hidden hline]
      have hrest := ih ((scanner.after (joined reversed.reverse)).after line) []
        (List.forall_mem_nil _)
      exact List.rel_append hclosed hrest
    | false =>
      have hrest := ih scanner (line :: reversed) (List.forall_mem_cons.2 ⟨hline, h⟩)
      rw [List.reverse_cons, List.append_assoc, List.singleton_append] at hrest
      rw [paragraphsFrom_of_visible hline]
      exact hrest

end Paragraphs

/-- A paragraph says what is visible, whatever the style before it. -/
lemma textContent_paragraph (scanner : Scanner) (cs : List Char) :
    (Node.paragraph ((scanner.runs cs).map Run.node)).textContent.toList = stripEscapes cs := by
  rw [← Node.map_fst_styledChars .plain, styledChars_paragraph, Scanner.runs, shown_runsFrom,
    List.reverse_nil, List.map_nil, List.nil_append, ← visible_eq_map_shownIn]
  rfl

/-- The paragraph that is read from a run of lines: its text, which is that of the lines if each of
them has ended its sequences before the next one begins, and is shorter where one has not. -/
structure ReadsRun (run : List (List Char)) (node : Node) : Prop where
  kind : node.kind = .paragraph
  text : node.textContent.toList = stripEscapes (joined run)
  kept : (∀ line ∈ run.dropLast, endsOpen line = false) →
    node.textContent.toList = joined (run.map stripEscapes)
  lost : ∀ above line below, run = above ++ line :: below → below ≠ [] →
    (∀ line ∈ above, endsOpen line = false) → endsOpen line = true →
    (∀ line ∈ below, escapeChar ∉ line) →
    node.textContent.toList.length < (joined (run.map stripEscapes)).length

lemma readsRun_of_readTogether {run : List (List Char)} {runs : List Run}
    (h : ReadTogether run runs) : ReadsRun run (.paragraph (runs.map Run.node)) := by
  obtain ⟨before, rfl⟩ := h
  have htext := textContent_paragraph before (joined run)
  refine ⟨rfl, htext, fun hclosed => htext.trans (stripEscapes_joined hclosed), ?_⟩
  rintro above line below rfl hne habove hline hbelow
  rw [htext]
  exact length_stripEscapes_joined_lt habove hline hne hbelow

/-- Reading gives a paragraph for each run of lines that show something. -/
theorem reads_each_run (data : ByteArray) (options : ReadOptions) :
    ∃ result, read data options = .ok result ∧ result.value.content.kind = .document ∧
      List.Forall₂ ReadsRun
        (Text.groupLines isHidden (Text.splitLines (Reading.decodeText data).value.toList))
        result.value.content.children := by
  obtain ⟨result, hread, hkind, hchildren, -⟩ := read_eq data options
  refine ⟨result, hread, hkind, ?_⟩
  have hruns := forall₂_paragraphsFrom .start []
    (Text.splitLines (Reading.decodeText data).value.toList) (List.forall_mem_nil _)
  rw [List.reverse_nil, List.nil_append] at hruns
  have hnodes := hruns.imp fun _ _ => readsRun_of_readTogether
  rw [hchildren]
  exact List.forall₂_map_right_iff.2 hnodes

/-- The blank for the line break and the first letter of the next line end the sequence that the
first line breaks off, and nothing is reported. -/
theorem read_brokenOff :
    let data := "a\x1b[1\nmore".toUTF8
    let lines := Text.splitLines (Reading.decodeText data).value.toList
    ∃ result, read data .standard = .ok result ∧ result.warnings = [] ∧
      result.value.content.children.map Node.textContent = ["aore"] ∧
      (Text.groupLines isHidden lines).map (fun run => joined (run.map stripEscapes)) =
        ["a more".toList] := by
  intro data lines
  obtain ⟨result, hread, -, hchildren, hwarnings⟩ := read_eq data .standard
  refine ⟨result, hread, ?_, ?_, ?_⟩
  · rw [hwarnings]
    decide +kernel
  · rw [hchildren]
    decide +kernel
  · decide +kernel

/-- A line in its paragraph, behind what the paragraph shows above it and a blank in the style in
force. -/
def showLine (style : TextStyle) (above : Option (List (Char × TextStyle)))
    (shown : List (Char × TextStyle)) : List (Char × TextStyle) :=
  match above with
  | none => shown
  | some above => above ++ (' ', style) :: shown

/-- What a terminal shows that is fed one line after the other, paragraph by paragraph; the first
paragraph may have begun above. A hidden line ends a paragraph, and is fed all the same. -/
def showLines (scanner : Scanner) (above : Option (List (Char × TextStyle))) :
    List (List Char) → List (List (Char × TextStyle))
  | [] => above.toList
  | line :: lines =>
    let (runs, next) := scanner.feed line
    if isHidden line then above.toList ++ showLines next none lines
    else
      let shown := runs.flatMap Run.shown
      showLines next (some (showLine scanner.style above shown)) lines

section Styles

variable {scanner : Scanner} {reversed lines : List (List Char)} {line : List Char}

/-- What the lines of a paragraph show that are still to be scanned, all at once. -/
def shownAbove (scanner : Scanner) (reversed : List (List Char)) :
    Option (List (Char × TextStyle)) :=
  if reversed.isEmpty then none
  else some ((scanner.runs (joined reversed.reverse)).flatMap Run.shown)

lemma shown_closeParagraph (scanner : Scanner) (reversed : List (List Char)) :
    (closeParagraph scanner reversed).1.map (·.flatMap Run.shown) =
      (shownAbove scanner reversed).toList := by
  by_cases hnil : reversed = []
  · subst hnil
    rfl
  · rw [closeParagraph_of_ne_nil scanner hnil, shownAbove, if_neg (by simpa using hnil)]
    rfl

/-- A line more, scanned with the lines above it, is as good as fed behind them. -/
lemma shownAbove_cons (scanner : Scanner) (hclosed : endsOpen (joined reversed.reverse) = false)
    (line : List Char) :
    let before := scanner.after (joined reversed.reverse)
    shownAbove scanner (line :: reversed) =
        some (showLine before.style (shownAbove scanner reversed)
          ((before.runs line).flatMap Run.shown)) ∧
      scanner.after (joined (line :: reversed).reverse) = before.after line ∧
      endsOpen (joined (line :: reversed).reverse) = endsOpen line := by
  by_cases hnil : reversed = []
  · subst hnil
    simp [shownAbove, showLine]
  · have hne : reversed.reverse ≠ [] := by simpa using hnil
    rw [List.reverse_cons, joined_concat hne, endsOpen_append_blank hclosed]
    refine ⟨?_, scanner.after_append_blank hclosed line, rfl⟩
    rw [shownAbove, shownAbove, if_neg (by simp), if_neg (by simpa using hnil), List.reverse_cons,
      joined_concat hne, scanner.shown_append_blank hclosed, showLine, List.append_assoc]
    rfl

/-- The induction is on the lines. The scanner of the reader stands at the front of the paragraph,
that of the terminal behind its last line. -/
theorem paragraphsFrom_eq_showLines (scanner : Scanner) (reversed : List (List Char))
    (hlines : ∀ line ∈ lines, endsOpen line = false)
    (hclosed : endsOpen (joined reversed.reverse) = false) :
    (paragraphsFrom scanner reversed lines).1.map (·.flatMap Run.shown) =
        showLines (scanner.after (joined reversed.reverse)) (shownAbove scanner reversed) lines ∧
      (paragraphsFrom scanner reversed lines).2 =
        lines.foldl Scanner.after (scanner.after (joined reversed.reverse)) := by
  induction lines generalizing scanner reversed with
  | nil => exact ⟨shown_closeParagraph scanner reversed, closeParagraph_snd scanner reversed⟩
  | cons line lines ih =>
    obtain ⟨hline, hrest⟩ := List.forall_mem_cons.1 hlines
    rw [showLines, List.foldl_cons]
    dsimp only [Scanner.feed]
    cases hhidden : isHidden line with
    | true =>
      -- the paragraph is closed, and the line is fed by itself
      have habove (scanner : Scanner) : shownAbove scanner [] = none := rfl
      have hnext := ih ((scanner.after (joined reversed.reverse)).after line) [] hrest rfl
      rw [List.reverse_nil, joined_nil, Scanner.after_nil, habove] at hnext
      rw [paragraphsFrom_of_hidden hhidden]
      dsimp only
      rw [List.map_append, shown_closeParagraph, hnext.1, hnext.2]
      exact ⟨rfl, rfl⟩
    | false =>
      obtain ⟨habove, hafter, hopen⟩ := shownAbove_cons scanner hclosed line
      have hnext := ih scanner (line :: reversed) hrest (hopen.trans hline)
      rw [habove, hafter] at hnext
      rw [paragraphsFrom_of_visible hhidden]
      exact hnext

end Styles

/-- Where every line ends outside of a sequence, each character is read in the style that it has on
a terminal that is fed the lines one after the other, and what the terminal ignores is reported. -/
theorem read_eq_showLines {data : ByteArray}
    (hlines : ∀ line ∈ Text.splitLines (Reading.decodeText data).value.toList,
      endsOpen line = false) (options : ReadOptions) :
    let lines := Text.splitLines (Reading.decodeText data).value.toList
    ∃ result, read data options = .ok result ∧ result.value.content.kind = .document ∧
      (∀ node ∈ result.value.content.children, node.kind = .paragraph) ∧
      result.value.content.children.map (Node.styledChars .plain) =
        showLines .start none lines ∧
      result.warnings = (Reading.decodeText data).warnings ++
        scanWarnings (lines.foldl Scanner.after .start) := by
  obtain ⟨result, hread, hkind, hchildren, hwarnings⟩ := read_eq data options
  have hrun := paragraphsFrom_eq_showLines .start [] hlines rfl
  rw [List.reverse_nil, joined_nil, Scanner.after_nil] at hrun
  refine ⟨result, hread, hkind, ?_, ?_, ?_⟩
  · rw [hchildren]
    intro node hnode
    obtain ⟨runs, -, rfl⟩ := List.mem_map.1 hnode
    rfl
  · rw [hchildren, List.map_map]
    exact (List.map_congr_left fun runs _ => styledChars_paragraph runs).trans hrun.1
  · rw [hwarnings]
    exact congrArg (_ ++ scanWarnings ·) hrun.2

/-- Styles that reach over lines, hidden lines and paragraphs, a command that shows nothing, and an
escape character at the end of a line. -/
theorem read_eq_showLines_reaching :
    let data := "one\x1b[1m\ntwo\x1b\n\x1b[3;31m\n \x1b]0;title\x07three\n\x1b[22mfour".toUTF8
    let lines := Text.splitLines (Reading.decodeText data).value.toList
    (∀ line ∈ lines, endsOpen line = false) ∧
      ∃ result, read data .standard = .ok result ∧ result.value.content.kind = .document ∧
        (∀ node ∈ result.value.content.children, node.kind = .paragraph) ∧
        result.value.content.children.map (Node.styledChars .plain) =
          showLines .start none lines ∧
        result.warnings = (Reading.decodeText data).warnings ++
          scanWarnings (lines.foldl Scanner.after .start) := by
  intro data lines
  have hlines : ∀ line ∈ lines, endsOpen line = false := by decide +kernel
  exact ⟨hlines, read_eq_showLines hlines .standard⟩

end Interchange.Terminal
