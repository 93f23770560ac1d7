import Interchange.Proofs.Layout.Parts
import Interchange.Proofs.Layout.Stacking

/-!
# The same layout on both media

A terminal shows the lines that a plain text has, as long as no sequence stands where the layout
measures, trims or compares text. In running text it may stand anywhere. In a list or an indented
block styled text may not begin or end with a line feed, and in a quotation or a footnote not with
a blank. A table may have styled text in its last column only, and the label of a link only if it
is not the address. Elsewhere a sequence can change the layout: it counts in the width of a column,
keeps blanks from being trimmed, and makes a label differ from its address.
-/
namespace Interchange.Layout

open Terminal (escapeChar stripEscapes)

variable {edge : Char → Bool}

/-- Where styled text may begin and end in the parts of a node, of which the line is the text. -/
def partEdge (edge : Char → Bool) (role : Role) (props : Bag) (line : Chars) : Char → Bool :=
  fun c => edge c && match role with
    | .indented | .list => c ≠ '\n'
    | .blockquote | .footnoteDef => !Text.isBlank c
    | .link => (Bag.textOr props Key.url).toList ≠ line
    | _ => true

/-- Whether the text that a node switches a style on for begins and ends where it may. -/
def fits (edge : Char → Bool) (setting : Setting) (role : Role) (kind : Kind) (line : Chars) :
    Bool :=
  match styleFlag? role kind with
  | some flag => setting.active.get flag || (line.head?.all edge && line.getLast?.all edge)
  | none => true

mutual

/-- Whether no style in a node changes its layout. -/
def steady (edge : Char → Bool) (setting : Setting) : Node → Bool
  | ⟨kind, props, children, _⟩ =>
    let role := roleOf kind
    let inner := setting.within role kind
    let line := inlineText (renderAll inner children)
    fits edge setting role kind line &&
      match role with
      | .table =>
        let columns := greatest (children.map (·.children.length))
        steadyRows (cellEdge edge columns) inner children
      | role =>
        !descends setting.inList role || steadyAll (partEdge edge role props line) inner children

def steadyAll (edge : Char → Bool) (setting : Setting) : List Node → Bool
  | [] => true
  | node :: nodes => steady edge setting node && steadyAll edge setting nodes

/-- The cells of each row, where each column has its own condition. -/
def steadyRows (edges : ℕ → Char → Bool) (setting : Setting) : List Node → Bool
  | [] => true
  | ⟨_, _, cells, _⟩ :: rows => steadyCells edges setting cells && steadyRows edges setting rows

def steadyCells (edges : ℕ → Char → Bool) (setting : Setting) : List Node → Bool
  | [] => true
  | ⟨_, _, children, _⟩ :: cells =>
    steadyAll (edges 0) setting children &&
      steadyCells (fun column => edges (column + 1)) setting cells

end

/-- The same setting on a terminal. -/
def Setting.onTerminal (setting : Setting) : Setting := { setting with medium := .terminal }

namespace Setting

variable (setting : Setting) (role : Role) (kind : Kind)

lemma within_onTerminal :
    setting.onTerminal.within role kind = (setting.within role kind).onTerminal := by
  unfold within
  cases styleFlag? role kind <;> rfl

@[simp] lemma within_medium : (setting.within role kind).medium = setting.medium := by
  unfold within
  cases styleFlag? role kind <;> rfl

@[simp] lemma within_separator : (setting.within role kind).separator = setting.separator := by
  unfold within
  cases styleFlag? role kind <;> rfl

end Setting

/-- Where a style is switched around a text that fits, the text is dressed with it. -/
theorem Dressed.wrap {setting : Setting} (hplain : setting.medium = .plain) {role : Role}
    {kind : Kind} {cs ds : Chars} (hfits : fits edge setting role kind ds = true)
    (h : Dressed edge cs ds) :
    Dressed edge (setting.onTerminal.wrap role kind cs) (setting.wrap role kind ds) := by
  unfold fits at hfits
  unfold Setting.wrap
  cases hflag : styleFlag? role kind with
  | none => exact h
  | some flag =>
    rw [hflag] at hfits
    dsimp only at hfits ⊢
    have hpaper : setting.styled flag ds = ds := by simp [Setting.styled, hplain]
    rw [hpaper]
    by_cases hkept : setting.active.get flag = true ∨ ds = []
    · have hterminal : setting.onTerminal.styled flag cs = cs := by
        rw [Setting.styled, if_pos]
        rw [← h.eq_nil_iff, ← List.isEmpty_iff] at hkept
        exact .inr hkept
      rwa [hterminal]
    · obtain ⟨hoff, hne⟩ := not_or.1 hkept
      have hshown : cs ≠ [] := fun hnil => hne (h.eq_nil_iff.1 hnil)
      have hterminal : setting.onTerminal.styled flag cs =
          sequence (Terminal.onCode flag) ++ cs ++ sequence (Terminal.offCode flag) := by
        rw [Setting.styled, if_neg]
        simpa [Setting.onTerminal, hshown] using hoff
      rw [Bool.eq_false_iff.2 hoff, Bool.false_or, Bool.and_eq_true, Option.all_eq_true,
        Option.all_eq_true] at hfits
      rw [hterminal]
      exact (h.prepend (.onCode flag) hne hfits.1).postpend (.offCode flag) hne hfits.2

section Conditions

variable {props : Bag}

lemma partEdge_le {role : Role} {line : Chars} {c : Char}
    (h : partEdge edge role props line c = true) : edge c = true :=
  (Bool.and_eq_true_iff.1 h).1

lemma partEdge_lineFeed {role : Role} (hrole : role = .indented ∨ role = .list) (line : Chars) :
    partEdge edge role props line '\n' = false := by
  rcases hrole with rfl | rfl <;> simp [partEdge]

lemma isBlank_of_partEdge {role : Role} (hrole : role = .blockquote ∨ role = .footnoteDef)
    {line : Chars} {c : Char} (h : partEdge edge role props line c = true) :
    Text.isBlank c = false := by
  have hkept := (Bool.and_eq_true_iff.1 h).2
  rcases hrole with rfl | rfl <;> simpa using hkept

/-- A label that is dressed is not the address, unless it may not be dressed. -/
theorem Dressed.linkText (hprops : Bag.lacks escapeChar props = true) {cs ds : Chars}
    (h : Dressed (partEdge edge .link props ds) cs ds) :
    Dressed edge (linkText props cs) (linkText props ds) := by
  have hurl : escapeChar ∉ (Bag.textOr props Key.url).toList := Bag.notMem_textOr hprops _
  have hlabel : Dressed edge cs ds := h.mono fun c => partEdge_le
  unfold Layout.linkText
  generalize hdef : (Bag.textOr props Key.url).toList = url at hurl
  dsimp only
  have hsame : url = cs ↔ url = ds := by
    constructor
    · rintro rfl
      rw [← hlabel.stripEscapes_eq, Terminal.stripEscapes_of_notMem hurl]
    · rintro rfl
      refine (Dressed.eq_of_bare (h.mono fun c hc => ?_)).symm
      simp [partEdge, hdef] at hc
  simp only [hsame, hlabel.isEmpty_eq]
  split
  · exact hlabel
  · split
    · exact .refl hurl
    · exact ((hlabel.append (.refl (by decide))).append (.refl hurl)).append (.refl (by decide))

theorem Dressed.footnoteText (hprops : Bag.lacks escapeChar props = true)
    (hedge : ∀ c, edge c = true → Text.isBlank c = false) {body body' : List Chars}
    (h : List.Forall₂ (Dressed edge) body body') :
    Dressed edge (footnoteText props body) (footnoteText props body') := by
  have hmark : Dressed edge (footnoteMark props) (footnoteMark props) :=
    .refl (escape_notMem_footnoteMark hprops)
  exact (hmark.append (.char (by decide) (.joinWith (by decide) h))).stripEnd hedge

end Conditions

lemma length_renderCells (setting : Setting) (cells : List Node) :
    (renderCells setting cells).length = cells.length := by
  induction cells with
  | nil => rfl
  | cons cell cells ih =>
    cases cell
    rw [renderCells, List.length_cons, ih, List.length_cons]

lemma map_length_renderRows (setting : Setting) (rows : List Node) :
    (renderRows setting rows).map List.length = rows.map (·.children.length) := by
  induction rows with
  | nil => rfl
  | cons row rows ih =>
    cases row
    rw [renderRows, List.map_cons, length_renderCells, ih, List.map_cons]

mutual

/-- The cases are the roles: each asks of the parts what its shape needs. -/
theorem alike_render {edge : Char → Bool} {setting : Setting} (hplain : setting.medium = .plain)
    (hsep : escapeChar ∉ setting.separator) : ∀ node : Node, node.lacks escapeChar = true →
    steady edge setting node = true →
    Alike edge (render setting.onTerminal node) (render setting node)
  | ⟨kind, props, children, span⟩, hlacks, hsteady => by
    obtain ⟨hprops, hchildren⟩ := Node.lacks_iff.1 hlacks
    rw [steady] at hsteady
    rw [render, render]
    dsimp only at hsteady ⊢
    generalize roleOf kind = role at hsteady ⊢
    rw [Setting.within_onTerminal]
    obtain ⟨hfits, hsteady⟩ := Bool.and_eq_true_iff.1 hsteady
    have hmedium : (setting.within role kind).medium = .plain := by
      rw [Setting.within_medium, hplain]
    have hseparator : escapeChar ∉ (setting.within role kind).separator := by
      rw [Setting.within_separator]
      exact hsep
    have alike {edge' : Char → Bool}
        (h : steadyAll edge' (setting.within role kind) children = true) :
        List.Forall₂ (Alike edge') (renderAll (setting.within role kind).onTerminal children)
          (renderAll (setting.within role kind) children) :=
      alike_renderAll hmedium hseparator children hchildren h
    -- A table has a condition for each column, any other role one for all its parts.
    have parts (hlaid : descends setting.inList role = true) (htable : role ≠ .table) :
        List.Forall₂ (Alike (partEdge edge role props
            (inlineText (renderAll (setting.within role kind) children))))
          (renderAll (setting.within role kind).onTerminal children)
          (renderAll (setting.within role kind) children) := by
      split at hsteady
      · exact absurd rfl htable
      · rw [hlaid] at hsteady
        exact alike hsteady
    have loose (hlaid : descends setting.inList role = true) (htable : role ≠ .table) :
        List.Forall₂ (Alike edge) (renderAll (setting.within role kind).onTerminal children)
          (renderAll (setting.within role kind) children) :=
      (parts hlaid htable).imp fun _ _ h => h.mono fun _ => partEdge_le
    cases role with
    | container => exact .blocks (Alike.flow (loose rfl nofun))
    | paragraph => exact .blocks (Alike.inlineText (loose rfl nofun)).nonempty
    | heading =>
      have hline := Alike.inlineText (loose rfl nofun)
      exact .blocks (hline.wrap hplain hfits).nonempty
    | indented =>
      have hbody := Dressed.unlines (Alike.flow (parts rfl nofun))
      have hindented := hbody.indent (partEdge_lineFeed (.inl rfl) _)
      exact .blocks (hbody.unlessEmpty indent (hindented.mono fun _ => partEdge_le))
    | codeBlock => exact .blocks (.cons (.refl (Bag.notMem_textOr hprops _)) .nil)
    | blockquote =>
      have hbody : Dressed _ (joinWith "\n\n" _) (joinWith "\n\n" _) :=
        .joinWith (by decide) (Alike.flow (parts rfl nofun))
      have hquoted := hbody.quote fun _ => isBlank_of_partEdge (.inl rfl)
      exact .blocks (hbody.unlessEmpty quote (hquoted.mono fun _ => partEdge_le))
    | list =>
      have hblock := Alike.listBlock (partEdge_lineFeed (.inr rfl) _) (parts rfl nofun) props
      exact .blocks (hblock.imp fun _ _ h => h.mono fun _ => partEdge_le)
    | listItem =>
      have hin : setting.onTerminal.inList = setting.inList := rfl
      rw [hin]
      cases hlaid : setting.inList with
      | true => exact .blocks (Alike.flow (loose hlaid nofun))
      | false => exact .blocks (Dressed.refl (Node.notMem_plainText hlacks)).nonempty
    | table =>
      have hrows := alike_renderRows hmedium hseparator children hchildren hsteady
      rw [← map_length_renderRows (setting.within .table kind)] at hrows
      exact .blocks (Alike.tableBlock hsep hrows)
    | rule => exact .blocks (.cons (.refl (escape_notMem_ruleText props)) .nil)
    | footnoteDef =>
      have hnote := Dressed.footnoteText hprops (fun _ => isBlank_of_partEdge (.inr rfl))
        (Alike.flow (parts rfl nofun))
      exact .blocks (.cons (hnote.mono fun _ => partEdge_le) .nil)
    | displayMath => exact .blocks (Dressed.refl (escape_notMem_mathText hlacks)).nonempty
    | content => exact .piece (.refl (Bag.notMem_textOr hprops _))
    | style => exact .piece ((Alike.inlineText (loose rfl nofun)).wrap hplain hfits)
    | span => exact .piece (Alike.inlineText (loose rfl nofun))
    | quoted =>
      have hline := Alike.inlineText (loose rfl nofun)
      exact .piece (.char (by decide) (hline.append (.refl (by decide))))
    | link => exact .piece (.linkText hprops (Alike.inlineText (parts rfl nofun)))
    | image => exact .piece (.refl (escape_notMem_imageText hprops))
    | lineBreak => exact .piece (.refl (by decide))
    | softBreak => exact .piece (.refl (by decide))
    | footnoteRef => exact .piece (.refl (escape_notMem_footnoteMark hprops))
    | inlineMath => exact .piece (.refl (escape_notMem_mathText hlacks))
    | unknown => exact .blocks (Dressed.refl (Node.notMem_plainText hlacks)).nonempty

theorem alike_renderAll {edge : Char → Bool} {setting : Setting}
    (hplain : setting.medium = .plain) (hsep : escapeChar ∉ setting.separator) :
    ∀ nodes : List Node, (∀ node ∈ nodes, node.lacks escapeChar = true) →
    steadyAll edge setting nodes = true →
    List.Forall₂ (Alike edge) (renderAll setting.onTerminal nodes) (renderAll setting nodes)
  | [], _, _ => .nil
  | node :: nodes, hlacks, hsteady => by
    obtain ⟨hnode, hnodes⟩ := List.forall_mem_cons.1 hlacks
    obtain ⟨hfirst, hrest⟩ := Bool.and_eq_true_iff.1 hsteady
    exact .cons (alike_render hplain hsep node hnode hfirst)
      (alike_renderAll hplain hsep nodes hnodes hrest)

theorem alike_renderRows {edges : ℕ → Char → Bool} {setting : Setting}
    (hplain : setting.medium = .plain) (hsep : escapeChar ∉ setting.separator) :
    ∀ rows : List Node, (∀ row ∈ rows, row.lacks escapeChar = true) →
    steadyRows edges setting rows = true →
    List.Forall₂ (fun row row' => row.length = row'.length ∧ ∀ column,
        List.Forall₂ (Alike (edges column)) (row.getD column []) (row'.getD column []))
      (renderRows setting.onTerminal rows) (renderRows setting rows)
  | [], _, _ => .nil
  | ⟨_, _, cells, _⟩ :: rows, hlacks, hsteady => by
    obtain ⟨hrow, hrows⟩ := List.forall_mem_cons.1 hlacks
    obtain ⟨hfirst, hrest⟩ := Bool.and_eq_true_iff.1 hsteady
    have hcells := (Node.lacks_iff.1 hrow).2
    refine .cons ⟨?_, ?_⟩ (alike_renderRows hplain hsep rows hrows hrest)
    · rw [length_renderCells, length_renderCells]
    · exact alike_renderCells hplain hsep cells hcells hfirst

theorem alike_renderCells {edges : ℕ → Char → Bool} {setting : Setting}
    (hplain : setting.medium = .plain) (hsep : escapeChar ∉ setting.separator) :
    ∀ cells : List Node, (∀ cell ∈ cells, cell.lacks escapeChar = true) →
    steadyCells edges setting cells = true → ∀ column,
      List.Forall₂ (Alike (edges column)) ((renderCells setting.onTerminal cells).getD column [])
        ((renderCells setting cells).getD column [])
  | [], _, _, _ => .nil
  | ⟨_, _, children, _⟩ :: cells, hlacks, hsteady, column => by
    obtain ⟨hcell, hcells⟩ := List.forall_mem_cons.1 hlacks
    obtain ⟨hfirst, hrest⟩ := Bool.and_eq_true_iff.1 hsteady
    have hchildren := (Node.lacks_iff.1 hcell).2
    cases column with
    | zero => exact alike_renderAll hplain hsep children hchildren hfirst
    | succ column => exact alike_renderCells hplain hsep cells hcells hrest column

end

theorem dressed_layOut {edge : Char → Bool} {setting : Setting} (hplain : setting.medium = .plain)
    (hsep : escapeChar ∉ setting.separator) {root : Node} (hlacks : root.lacks escapeChar = true)
    (hsteady : steady edge setting root = true) :
    Dressed edge (layOut setting.onTerminal root) (layOut setting root) := by
  have hblocks := (alike_render hplain hsep root hlacks hsteady).toBlocks
  have htext : Dressed edge (joinWith "\n\n" (render setting.onTerminal root).toBlocks)
      (joinWith "\n\n" (render setting root).toBlocks) := .joinWith (by decide) hblocks
  unfold layOut
  dsimp only
  rw [htext.isEmpty_eq]
  split
  · exact .nil
  · exact htext.append (.refl (by decide))

/-- The setting in which a document is laid out on paper by default. -/
def paper : Setting := ⟨.plain, standardSeparator.toList, .plain, false⟩

/-- The root of a document may have styled text anywhere. -/
def steadyRoot (root : Node) : Bool := steady (fun _ => true) paper root

/-- A document that has no escape character and is steady is laid out in the same way on both
media. -/
theorem stripEscapes_write {doc : Document} (hlacks : doc.content.lacks escapeChar = true)
    (hsteady : steadyRoot doc.content = true) :
    ∃ shown printed, write .terminal doc .standard = .ok shown ∧
      write .plain doc .standard = .ok printed ∧
      stripEscapes shown.value.toList = printed.value.toList := by
  have hdressed : Dressed _ (layOut paper.onTerminal doc.content) (layOut paper doc.content) :=
    dressed_layOut rfl (by decide) hlacks hsteady
  refine ⟨_, _, write_standard .terminal doc, write_standard .plain doc, ?_⟩
  rw [output, output, String.toList_ofList, String.toList_ofList]
  exact hdressed.stripEscapes_eq

/-- Styles in running text, in a list, in a quotation, in the last column of a table and in the
label of a link, one of them inside itself. -/
theorem stripEscapes_write_report :
    let doc := Document.ofContent (.document [
      .heading 1 [.text "Report"],
      .paragraph [.branch .strong [.text " a ", .branch .emphasis [.branch .strong [.text "b"]]],
        .link "http://x" [.branch .underline [.text "here"]]],
      .list true [.listItem [.paragraph [.branch .strikeout [.text "one"], .text " two"]]],
      .branch .blockquote [.paragraph [.branch .emphasis [.text "said"], .text " \n"]],
      .table [.tableRow [.tableCell true [.text "k"], .tableCell true [.text "v"]],
        .tableRow [.tableCell false [.text "key"],
          .tableCell false [.branch .strong [.text "value"]]]]])
    (doc.content.lacks escapeChar = true ∧ steadyRoot doc.content = true) ∧
      ∃ shown printed, write .terminal doc .standard = .ok shown ∧
        write .plain doc .standard = .ok printed ∧
        stripEscapes shown.value.toList = printed.value.toList := by
  intro doc
  have hlacks : doc.content.lacks escapeChar = true := by decide +kernel
  have hsteady : steadyRoot doc.content = true := by decide +kernel
  exact ⟨⟨hlacks, hsteady⟩, stripEscapes_write hlacks hsteady⟩

/-- The sequences around a word in the first column of a table count in the width of the column. -/
theorem stripEscapes_write_boldCell_ne :
    let doc := Document.ofContent (.document [.table [
      .tableRow [.tableCell false [.branch .strong [.text "a"]], .tableCell false [.text "b"]],
      .tableRow [.tableCell false [.text "cc"], .tableCell false [.text "d"]]]])
    doc.content.lacks escapeChar = true ∧
      ∃ shown printed, write .terminal doc .standard = .ok shown ∧
        write .plain doc .standard = .ok printed ∧
        stripEscapes shown.value.toList ≠ printed.value.toList := by
  intro doc
  refine ⟨by decide +kernel, _, _, rfl, rfl, ?_⟩
  decide +kernel

end Interchange.Layout
