import Interchange.Proofs.Layout.Media
import Interchange.Proofs.Terminal.Showing

/-!
# Styles are switched off again

The sequences in a text for a terminal switch styles on and off in a certain order. Splitting a text
into lines, indenting, trimming and padding them and joining them again leaves that order as it is,
since no sequence has a line feed in it or a blank at its end. What is made of a node leaves the
style in force as it found it, however styles are nested and wherever blocks stand in a line; so a
whole document ends in the style in which it begins.
-/
namespace Interchange.Layout

open Terminal (escapeChar Scanner)

/-- A style is switched on or off. -/
structure Switch where
  flag : StyleFlag
  on : Bool

namespace Switch

def code (switch : Switch) : String :=
  if switch.on then Terminal.onCode switch.flag else Terminal.offCode switch.flag

def text (switch : Switch) : Chars := sequence switch.code

def apply (style : TextStyle) (switch : Switch) : TextStyle := style.set switch.flag switch.on

lemma isLetter_code (switch : Switch) :
    ∀ c ∈ switch.code.toList, Terminal.isLetter c = false := by
  rw [code]
  split
  · exact Terminal.isLetter_onCode switch.flag
  · exact Terminal.isLetter_offCode switch.flag

lemma silent (switch : Switch) : Silent switch.text := by
  rw [text, code]
  split
  · exact .onCode switch.flag
  · exact .offCode switch.flag

/-- A scanner that reads a switch changes its style, and nothing else. -/
lemma after_text (switch : Switch) (style : TextStyle) (ignored : List String) (dropped : ℕ) :
    Scanner.after ⟨style, ignored, dropped⟩ switch.text =
      ⟨switch.apply style, ignored, dropped⟩ := by
  have hknown : Terminal.ignoredCodes switch.code.toList = [] := by
    obtain ⟨flag, on⟩ := switch
    cases flag <;> cases on <;> decide
  have hstyle : Terminal.applySgr style switch.code.toList = switch.apply style := by
    obtain ⟨flag, on⟩ := switch
    cases on with
    | true => exact Terminal.applySgr_onCode style flag
    | false => exact Terminal.applySgr_offCode style flag
  rw [← hstyle]
  exact Terminal.after_spell switch.isLetter_code hknown style ignored dropped

end Switch

/-- The style after switches. -/
def styleAfter (style : TextStyle) (switches : List Switch) : TextStyle :=
  switches.foldl Switch.apply style

lemma styleAfter_append (style : TextStyle) (switches more : List Switch) :
    styleAfter style (switches ++ more) = styleAfter (styleAfter style switches) more :=
  List.foldl_append

/-- A text of visible characters with whole sequences between them, which switch styles in the
given order. -/
inductive Carries : Chars → List Switch → Prop
  | nil : Carries [] []
  | char {c : Char} {cs : Chars} {switches : List Switch} (visible : c ≠ escapeChar)
      (rest : Carries cs switches) : Carries (c :: cs) switches
  | switch (first : Switch) {cs : Chars} {switches : List Switch} (rest : Carries cs switches) :
      Carries (first.text ++ cs) (first :: switches)

/-- Lines that carry switches one after the other. -/
inductive CarriesAll : List Chars → List Switch → Prop
  | nil : CarriesAll [] []
  | cons {line : Chars} {ls : List Chars} {front back : List Switch} (first : Carries line front)
      (rest : CarriesAll ls back) : CarriesAll (line :: ls) (front ++ back)

variable {cs ds : Chars} {ls ls' : List Chars} {switches more : List Switch}

/-- A scanner that reads a text obeys its switches one after the other. -/
theorem Carries.after_eq (h : Carries cs switches) (style : TextStyle) (ignored : List String)
    (dropped : ℕ) : Scanner.after ⟨style, ignored, dropped⟩ cs =
      ⟨styleAfter style switches, ignored, dropped⟩ := by
  induction h generalizing style with
  | nil => exact Scanner.after_nil _
  | @char c cs switches visible rest ih =>
    have hwhole : Terminal.Whole [c] := Terminal.Whole.nil.cons visible
    rw [← List.singleton_append, Scanner.after_append _ hwhole, Scanner.after_char _ visible, ih]
  | @switch first cs switches rest ih =>
    rw [Scanner.after_append _ first.silent.whole, first.after_text, ih]
    rfl

namespace Carries

/-- A text without escape characters switches nothing. -/
lemma bare (h : escapeChar ∉ cs) : Carries cs [] := by
  induction cs with
  | nil => exact .nil
  | cons c cs ih =>
    simp only [List.mem_cons, not_or] at h
    exact .char (Ne.symm h.1) (ih h.2)

lemma append (h : Carries cs switches) (h' : Carries ds more) :
    Carries (cs ++ ds) (switches ++ more) := by
  induction h with
  | nil => exact h'
  | char visible _ ih => exact .char visible ih
  | switch first _ ih =>
    rw [List.append_assoc]
    exact .switch first ih

lemma text_ne_nil (switch : Switch) : switch.text ≠ [] := by simp [Switch.text, sequence]

/-- No text, no switches. -/
lemma eq_nil (h : Carries [] switches) : switches = [] := by
  generalize hcs : ([] : Chars) = cs at h
  cases h with
  | nil => rfl
  | char _ _ => cases hcs
  | switch first _ => exact absurd (List.append_eq_nil_iff.1 hcs.symm).1 (text_ne_nil first)

/-- Trimming takes no switch away: no blank stands at the end of one. -/
lemma stripEnd (h : Carries cs switches) : Carries (Text.stripEnd cs) switches := by
  induction h with
  | nil => exact .nil
  | @char c cs switches visible rest ih =>
    rw [← List.singleton_append, Text.stripEnd_append]
    split
    · next hempty =>
      -- all that follows is trimmed, so there is no switch in it
      rw [List.isEmpty_iff.1 hempty] at ih
      have hnone : escapeChar ∉ Text.stripEnd [c] := by
        intro hmem
        exact visible (List.mem_singleton.1 (Text.mem_of_mem_stripEnd hmem)).symm
      rw [ih.eq_nil]
      exact bare hnone
    · exact .char visible ih
  | @switch first cs switches rest ih =>
    rw [Text.stripEnd_append_of_last first.silent.firm]
    exact .switch first ih

/-- A text falls into lines that carry its switches one after the other. -/
theorem lines (h : Carries cs switches) : CarriesAll (lines cs) switches := by
  -- what has no line feed goes to the front of the first line
  have front {head : Chars} {first : List Switch} (hhead : Carries head first)
      (hbreak : '\n' ∉ head) {cs : Chars} {switches : List Switch}
      (h : CarriesAll (Layout.lines cs) switches) :
      CarriesAll (Layout.lines (head ++ cs)) (first ++ switches) := by
    rw [Layout.lines, Text.splitAt_append hbreak]
    unfold Layout.lines at h
    have hne := Text.splitAt_ne_nil '\n' cs
    generalize Text.splitAt '\n' cs = pieces at h hne ⊢
    cases h with
    | nil => exact absurd rfl hne
    | cons hfirst hrest =>
      rw [← List.append_assoc]
      exact .cons (hhead.append hfirst) hrest
  induction h with
  | nil => exact .cons .nil .nil
  | @char c cs switches visible rest ih =>
    by_cases hc : c = '\n'
    · subst hc
      rw [Layout.lines, Text.splitAt_cons_self]
      exact .cons .nil ih
    · exact front (.char visible .nil) (by simpa using Ne.symm hc) ih
  | @switch first cs switches rest ih =>
    have hone : Carries first.text [first] := by
      have hswitch := Carries.switch first .nil
      rwa [List.append_nil] at hswitch
    exact front hone first.silent.unbroken ih

/-- A line break within a text becomes a blank. -/
lemma flatten (h : Carries cs switches) : Carries (flatten cs) switches := by
  induction h with
  | nil => exact .nil
  | @char c cs switches visible rest ih =>
    have hshown : (if c = '\n' then ' ' else c) ≠ escapeChar := by
      split
      · decide
      · exact visible
    exact .char hshown ih
  | @switch first cs switches rest ih =>
    have hfirst : Layout.flatten first.text = first.text := by
      calc Layout.flatten first.text = first.text.map id := List.map_congr_left fun c hc =>
            if_neg (ne_of_mem_of_not_mem hc first.silent.unbroken)
        _ = first.text := List.map_id first.text
    have happend : Layout.flatten (first.text ++ cs) =
        Layout.flatten first.text ++ Layout.flatten cs := List.map_append
    rw [happend, hfirst]
    exact .switch first ih

lemma behind {margin : Chars} (hmargin : escapeChar ∉ margin) (h : Carries cs switches) :
    Carries (behind margin cs) switches := by
  rw [Layout.behind]
  split
  · exact h
  · exact (bare hmargin).append h

end Carries

namespace CarriesAll

lemma append (h : CarriesAll ls switches) (h' : CarriesAll ls' more) :
    CarriesAll (ls ++ ls') (switches ++ more) := by
  induction h with
  | nil => exact h'
  | cons first _ ih =>
    rw [List.append_assoc]
    exact .cons first ih

/-- Each line is shaped without a change to its switches. -/
lemma map {shape : Chars → Chars}
    (hshape : ∀ line switches, Carries line switches → Carries (shape line) switches)
    (h : CarriesAll ls switches) : CarriesAll (ls.map shape) switches := by
  induction h with
  | nil => exact .nil
  | cons first _ ih => exact .cons (hshape _ _ first) ih

/-- Lines that are joined by a text without switches. -/
lemma intercalate {separator : Chars} (hsep : escapeChar ∉ separator)
    (h : CarriesAll ls switches) : Carries (List.intercalate separator ls) switches := by
  induction h with
  | nil => exact .nil
  | @cons line ls front back first rest ih =>
    cases ls with
    | nil =>
      have hback : back = [] := by
        cases rest
        rfl
      rw [hback, List.append_nil, List.intercalate_singleton]
      exact first
    | cons next ls =>
      rw [List.intercalate_cons_cons]
      have hfront := first.append (Carries.bare hsep)
      rw [List.append_nil] at hfront
      exact hfront.append ih

end CarriesAll

/-- A text whose switches lead from a style back to it. -/
def Balanced (style : TextStyle) (cs : Chars) : Prop :=
  ∃ switches, Carries cs switches ∧ styleAfter style switches = style

/-- Lines whose switches lead back to the style, if not in each line then in all of them. -/
def BalancedAll (style : TextStyle) (ls : List Chars) : Prop :=
  ∃ switches, CarriesAll ls switches ∧ styleAfter style switches = style

variable {style : TextStyle}

namespace BalancedAll

lemma nil (style : TextStyle) : BalancedAll style [] := ⟨[], .nil, rfl⟩

lemma cons (h : Balanced style cs) (h' : BalancedAll style ls) : BalancedAll style (cs :: ls) := by
  obtain ⟨switches, hcs, hstyle⟩ := h
  obtain ⟨more, hls, hstyle'⟩ := h'
  exact ⟨switches ++ more, .cons hcs hls, by rw [styleAfter_append, hstyle, hstyle']⟩

lemma append (h : BalancedAll style ls) (h' : BalancedAll style ls') :
    BalancedAll style (ls ++ ls') := by
  obtain ⟨switches, hls, hstyle⟩ := h
  obtain ⟨more, hls', hstyle'⟩ := h'
  exact ⟨switches ++ more, hls.append hls', by rw [styleAfter_append, hstyle, hstyle']⟩

/-- Lines that are balanced one by one. -/
lemma of_forall (h : ∀ line ∈ ls, Balanced style line) : BalancedAll style ls := by
  induction ls with
  | nil => exact nil style
  | cons line ls ih =>
    obtain ⟨hline, hls⟩ := List.forall_mem_cons.1 h
    exact cons hline (ih hls)

lemma joinWith {separator : String} (hsep : escapeChar ∉ separator.toList)
    (h : BalancedAll style ls) : Balanced style (joinWith separator ls) := by
  obtain ⟨switches, hls, hstyle⟩ := h
  exact ⟨switches, hls.intercalate hsep, hstyle⟩

lemma unlines (h : BalancedAll style ls) : Balanced style (unlines ls) := h.joinWith (by decide)

end BalancedAll

namespace Balanced

lemma bare (style : TextStyle) (h : escapeChar ∉ cs) : Balanced style cs := ⟨[], .bare h, rfl⟩

lemma nil (style : TextStyle) : Balanced style [] := ⟨[], .nil, rfl⟩

lemma append (h : Balanced style cs) (h' : Balanced style ds) : Balanced style (cs ++ ds) := by
  obtain ⟨switches, hcs, hstyle⟩ := h
  obtain ⟨more, hds, hstyle'⟩ := h'
  exact ⟨switches ++ more, hcs.append hds, by rw [styleAfter_append, hstyle, hstyle']⟩

lemma stripEnd (h : Balanced style cs) : Balanced style (Text.stripEnd cs) := by
  obtain ⟨switches, hcs, hstyle⟩ := h
  exact ⟨switches, hcs.stripEnd, hstyle⟩

lemma flatten (h : Balanced style cs) : Balanced style (flatten cs) := by
  obtain ⟨switches, hcs, hstyle⟩ := h
  exact ⟨switches, hcs.flatten, hstyle⟩

/-- The lines of a text, shaped one by one and joined again. -/
lemma mapLines {shape : Chars → Chars}
    (hshape : ∀ line switches, Carries line switches → Carries (shape line) switches)
    (h : Balanced style cs) : Balanced style (unlines ((lines cs).map shape)) := by
  obtain ⟨switches, hcs, hstyle⟩ := h
  exact BalancedAll.unlines ⟨switches, hcs.lines.map hshape, hstyle⟩

lemma indent (h : Balanced style cs) : Balanced style (indent cs) :=
  h.mapLines fun _ _ hline => hline.behind (by decide)

lemma quote (h : Balanced style cs) : Balanced style (quote cs) :=
  h.mapLines fun _ _ hline => ((Carries.bare (by decide)).append hline).stripEnd

/-- The sequences that the writer puts around a text in a style undo one another, and a style that
is on already is not switched. -/
theorem styled {setting : Setting} (hmedium : setting.medium = .terminal) {flag : StyleFlag}
    (h : Balanced (setting.active.set flag true) cs) :
    Balanced setting.active (setting.styled flag cs) := by
  cases hactive : setting.active.get flag with
  | true =>
    rw [TextStyle.set_of_get hactive] at h
    simpa [Setting.styled, hactive] using h
  | false =>
    by_cases hempty : cs = []
    · subst hempty
      simpa [Setting.styled] using nil setting.active
    · obtain ⟨switches, hcs, hstyle⟩ := h
      have hwritten : setting.styled flag cs =
          Switch.text ⟨flag, true⟩ ++ (cs ++ (Switch.text ⟨flag, false⟩ ++ [])) := by
        simp [Setting.styled, hmedium, hactive, hempty, Switch.text, Switch.code]
      rw [hwritten]
      refine ⟨_, .switch _ (hcs.append (.switch _ .nil)), ?_⟩
      have hrestored : (setting.active.set flag true).set flag false = setting.active := by
        rw [TextStyle.set_set, TextStyle.set_of_get hactive]
      calc styleAfter setting.active (⟨flag, true⟩ :: (switches ++ [⟨flag, false⟩]))
          = styleAfter (styleAfter (setting.active.set flag true) switches) [⟨flag, false⟩] :=
            styleAfter_append _ _ _
        _ = (setting.active.set flag true).set flag false := by rw [hstyle]; rfl
        _ = setting.active := hrestored

end Balanced

lemma balancedAll_itemLines {marker : Chars} (hmarker : escapeChar ∉ marker)
    (h : Balanced style cs) : BalancedAll style (itemLines marker cs) := by
  obtain ⟨switches, hcs, hstyle⟩ := h
  have hmargin : escapeChar ∉ List.replicate marker.length ' ' := by
    intro hmem
    exact absurd (List.eq_of_mem_replicate hmem) (by decide)
  have hlines := hcs.lines
  refine ⟨switches, ?_, hstyle⟩
  unfold itemLines
  generalize lines cs = ls at hlines ⊢
  cases hlines with
  | nil => exact .cons (.bare hmarker) .nil
  | cons hfirst hrest =>
    have hmarked := (Carries.bare hmarker).append hfirst
    exact .cons hmarked (hrest.map fun _ _ hline => hline.behind hmargin)

lemma balancedAll_listLines (ordered : Bool) {items : List Chars}
    (h : ∀ item ∈ items, Balanced style item) (number : ℤ) :
    BalancedAll style (listLines ordered number items) := by
  induction items generalizing number with
  | nil => exact .nil style
  | cons item items ih =>
    obtain ⟨hitem, hitems⟩ := List.forall_mem_cons.1 h
    have hfirst := balancedAll_itemLines (Dressed.escape_notMem_marker ordered number) hitem
    exact hfirst.append (ih hitems (number + 1))

lemma Balanced.padRight (width : ℕ) (h : Balanced style cs) :
    Balanced style (padRight width cs) := by
  refine h.append (.bare style fun hmem => ?_)
  exact absurd (List.eq_of_mem_replicate hmem) (by decide)

lemma balanced_tableLine {separator : Chars} (hsep : escapeChar ∉ separator) (widths : List ℕ)
    {row : List Chars} (h : ∀ cell ∈ row, Balanced style cell) :
    Balanced style (tableLine separator widths row) := by
  have hcells : BalancedAll style
      (widths.mapIdx fun column width => Layout.padRight width (row.getD column [])) := by
    refine .of_forall fun cell hcell => ?_
    obtain ⟨column, _, rfl⟩ := List.mem_mapIdx.1 hcell
    refine Balanced.padRight _ ?_
    rw [List.getD_eq_getElem?_getD]
    cases hfound : row[column]? with
    | none => exact .nil style
    | some cell => exact h cell (List.mem_of_getElem? hfound)
  obtain ⟨switches, hcells, hstyle⟩ := hcells
  exact Balanced.stripEnd ⟨switches, hcells.intercalate hsep, hstyle⟩

/-- What a node has become leaves the style as it found it, in each of its blocks. -/
def Settled (style : TextStyle) : Rendered → Prop
  | .piece text => Balanced style text
  | .blocks bs => ∀ block ∈ bs, Balanced style block

namespace Settled

variable {parts : List Rendered}

lemma toPiece {part : Rendered} (h : Settled style part) : Balanced style part.toPiece := by
  cases part with
  | piece text => exact h
  | blocks bs => exact (BalancedAll.of_forall h).joinWith (by decide)

lemma nonempty (h : Balanced style cs) : ∀ block ∈ nonempty cs, Balanced style block := by
  intro block hblock
  rw [Layout.nonempty] at hblock
  split at hblock
  · cases hblock
  · obtain rfl := List.mem_singleton.1 hblock
    exact h

/-- A block made of a text, unless there is none. -/
lemma unlessEmpty (cs : Chars) (h : Balanced style ds) :
    Settled style (.blocks (if cs.isEmpty then [] else [ds])) := by
  intro block hblock
  split at hblock
  · cases hblock
  · obtain rfl := List.mem_singleton.1 hblock
    exact h

lemma one (h : Balanced style cs) : Settled style (.blocks [cs]) := by
  intro block hblock
  obtain rfl := List.mem_singleton.1 hblock
  exact h

lemma inlineText (h : ∀ part ∈ parts, Settled style part) :
    Balanced style (inlineText parts) := by
  induction parts with
  | nil => exact .nil style
  | cons part parts ih =>
    obtain ⟨hpart, hparts⟩ := List.forall_mem_cons.1 h
    exact hpart.toPiece.append (ih hparts)

lemma flowFrom (h : ∀ part ∈ parts, Settled style part) {run : Chars}
    (hrun : Balanced style run) : ∀ block ∈ flowFrom run parts, Balanced style block := by
  induction parts generalizing run with
  | nil => exact nonempty hrun
  | cons part parts ih =>
    obtain ⟨hpart, hparts⟩ := List.forall_mem_cons.1 h
    cases part with
    | piece text => exact ih hparts (hrun.append hpart)
    | blocks bs =>
      intro block hblock
      rw [Layout.flowFrom, List.mem_append, List.mem_append] at hblock
      rcases hblock with (hblock | hblock) | hblock
      · exact nonempty hrun block hblock
      · exact hpart block (List.mem_of_mem_filter hblock)
      · exact ih hparts (.nil style) block hblock

lemma flow (h : ∀ part ∈ parts, Settled style part) : Settled style (.blocks (flow parts)) :=
  flowFrom h (.nil style)

lemma listBlock (props : Bag) (h : ∀ part ∈ parts, Settled style part) :
    Settled style (.blocks (listBlock props parts)) := by
  have hitems : ∀ item ∈ parts.map (fun item => unlines (Layout.flow [item])),
      Balanced style item := by
    intro item hitem
    obtain ⟨part, hpart, rfl⟩ := List.mem_map.1 hitem
    have hflow := flow (List.forall_mem_singleton.2 (h part hpart))
    exact (BalancedAll.of_forall hflow).unlines
  have hlines := balancedAll_listLines (Bag.isOn props Key.ordered) hitems
    ((Bag.int? props Key.start).getD 1)
  unfold Layout.listBlock
  dsimp only
  split
  · exact fun _ hblock => nomatch hblock
  · exact one hlines.unlines

lemma cellText (h : ∀ part ∈ parts, Settled style part) : Balanced style (cellText parts) :=
  ((BalancedAll.of_forall (flow h)).joinWith (by decide)).flatten

lemma tableBlock {separator : Chars} (hsep : escapeChar ∉ separator)
    {rows : List (List (List Rendered))}
    (h : ∀ row ∈ rows, ∀ cell ∈ row, ∀ part ∈ cell, Settled style part) :
    Settled style (.blocks (tableBlock separator rows)) := by
  have hlines : ∀ line ∈ tableLines separator (rows.map (·.map Layout.cellText)),
      Balanced style line := by
    intro line hline
    obtain ⟨row, hrow, rfl⟩ := List.mem_map.1 hline
    obtain ⟨cells, hcells, rfl⟩ := List.mem_map.1 hrow
    refine balanced_tableLine hsep _ fun cell hcell => ?_
    obtain ⟨parts, hparts, rfl⟩ := List.mem_map.1 hcell
    exact cellText (h cells hcells parts hparts)
  unfold Layout.tableBlock
  split
  · exact fun _ hblock => nomatch hblock
  · exact one (BalancedAll.of_forall hlines).unlines

end Settled

section Nodes

variable {props : Bag}

lemma Balanced.linkText (hprops : Bag.lacks escapeChar props = true) (h : Balanced style cs) :
    Balanced style (linkText props cs) := by
  have hurl := Balanced.bare style (Bag.notMem_textOr hprops Key.url)
  have hopening : Balanced style " <".toList := .bare style (by decide)
  have hclosing : Balanced style ">".toList := .bare style (by decide)
  unfold Layout.linkText
  dsimp only
  split
  · exact h
  · split
    · exact hurl
    · exact ((h.append hopening).append hurl).append hclosing

lemma balanced_footnoteText (hprops : Bag.lacks escapeChar props = true)
    (h : ∀ block ∈ ls, Balanced style block) : Balanced style (footnoteText props ls) := by
  have hmark := Balanced.bare style (escape_notMem_footnoteMark hprops)
  have hgap : Balanced style [' '] := .bare style (by decide)
  have hbody : Balanced style (joinWith " " ls) := (BalancedAll.of_forall h).joinWith (by decide)
  exact (hmark.append (hgap.append hbody)).stripEnd

/-- The style of the parts of a node is switched on before them and off behind them. -/
lemma Balanced.wrap {setting : Setting} (hmedium : setting.medium = .terminal) {role : Role}
    {kind : Kind} (h : Balanced (setting.within role kind).active cs) :
    Balanced setting.active (setting.wrap role kind cs) := by
  unfold Setting.within at h
  unfold Setting.wrap
  cases hflag : styleFlag? role kind with
  | none =>
    rw [hflag] at h
    exact h
  | some flag =>
    rw [hflag] at h
    exact h.styled hmedium

end Nodes

mutual

/-- The cases are the roles. Only headings and styles have parts in another style than their own. -/
theorem settled_render {setting : Setting} (hmedium : setting.medium = .terminal)
    (hsep : escapeChar ∉ setting.separator) : ∀ node : Node, node.lacks escapeChar = true →
    Settled setting.active (render setting node)
  | ⟨kind, props, children, span⟩, hlacks => by
    obtain ⟨hprops, hchildren⟩ := Node.lacks_iff.1 hlacks
    rw [render]
    dsimp only
    generalize roleOf kind = role
    have hmedium' : (setting.within role kind).medium = .terminal := by
      rw [Setting.within_medium, hmedium]
    have hsep' : escapeChar ∉ (setting.within role kind).separator := by
      rw [Setting.within_separator]
      exact hsep
    have parts := settled_renderAll hmedium' hsep' children hchildren
    have line := Settled.inlineText parts
    cases role with
    | container => exact Settled.flow parts
    | paragraph => exact Settled.nonempty line
    | heading => exact Settled.nonempty (line.wrap hmedium)
    | indented =>
      have body := (BalancedAll.of_forall (Settled.flow parts)).unlines
      exact Settled.unlessEmpty _ body.indent
    | codeBlock => exact Settled.one (.bare _ (Bag.notMem_textOr hprops _))
    | blockquote =>
      have body : Balanced _ (joinWith "\n\n" _) :=
        (BalancedAll.of_forall (Settled.flow parts)).joinWith (by decide)
      exact Settled.unlessEmpty _ body.quote
    | list => exact Settled.listBlock props parts
    | listItem =>
      cases hlaid : setting.inList with
      | true => exact Settled.flow parts
      | false => exact Settled.nonempty (.bare _ (Node.notMem_plainText hlacks))
    | table => exact Settled.tableBlock hsep (settled_renderRows hmedium' hsep' children hchildren)
    | rule => exact Settled.one (.bare _ (escape_notMem_ruleText props))
    | footnoteDef => exact Settled.one (balanced_footnoteText hprops (Settled.flow parts))
    | displayMath => exact Settled.nonempty (.bare _ (escape_notMem_mathText hlacks))
    | content => exact Balanced.bare _ (Bag.notMem_textOr hprops _)
    | style => exact line.wrap hmedium
    | span => exact line
    | quoted =>
      have hmark : Balanced setting.active ['"'] := .bare _ (by decide)
      exact hmark.append (line.append hmark)
    | link => exact line.linkText hprops
    | image => exact Balanced.bare _ (escape_notMem_imageText hprops)
    | lineBreak => exact Balanced.bare _ (by decide)
    | softBreak => exact Balanced.bare _ (by decide)
    | footnoteRef => exact Balanced.bare _ (escape_notMem_footnoteMark hprops)
    | inlineMath => exact Balanced.bare _ (escape_notMem_mathText hlacks)
    | unknown => exact Settled.nonempty (.bare _ (Node.notMem_plainText hlacks))

theorem settled_renderAll {setting : Setting} (hmedium : setting.medium = .terminal)
    (hsep : escapeChar ∉ setting.separator) :
    ∀ nodes : List Node, (∀ node ∈ nodes, node.lacks escapeChar = true) →
    ∀ part ∈ renderAll setting nodes, Settled setting.active part
  | [], _ => fun _ hpart => nomatch hpart
  | node :: nodes, hlacks => by
    obtain ⟨hnode, hnodes⟩ := List.forall_mem_cons.1 hlacks
    exact List.forall_mem_cons.2 ⟨settled_render hmedium hsep node hnode,
      settled_renderAll hmedium hsep nodes hnodes⟩

theorem settled_renderRows {setting : Setting} (hmedium : setting.medium = .terminal)
    (hsep : escapeChar ∉ setting.separator) :
    ∀ rows : List Node, (∀ row ∈ rows, row.lacks escapeChar = true) →
    ∀ row ∈ renderRows setting rows, ∀ cell ∈ row, ∀ part ∈ cell, Settled setting.active part
  | [], _ => fun _ hrow => nomatch hrow
  | ⟨_, _, cells, _⟩ :: rows, hlacks => by
    obtain ⟨hrow, hrows⟩ := List.forall_mem_cons.1 hlacks
    have hcells := (Node.lacks_iff.1 hrow).2
    exact List.forall_mem_cons.2 ⟨settled_renderCells hmedium hsep cells hcells,
      settled_renderRows hmedium hsep rows hrows⟩

theorem settled_renderCells {setting : Setting} (hmedium : setting.medium = .terminal)
    (hsep : escapeChar ∉ setting.separator) :
    ∀ cells : List Node, (∀ cell ∈ cells, cell.lacks escapeChar = true) →
    ∀ cell ∈ renderCells setting cells, ∀ part ∈ cell, Settled setting.active part
  | [], _ => fun _ hcell => nomatch hcell
  | ⟨_, _, children, _⟩ :: cells, hlacks => by
    obtain ⟨hcell, hcells⟩ := List.forall_mem_cons.1 hlacks
    have hchildren := (Node.lacks_iff.1 hcell).2
    exact List.forall_mem_cons.2 ⟨settled_renderAll hmedium hsep children hchildren,
      settled_renderCells hmedium hsep cells hcells⟩

end

lemma balanced_layOut {setting : Setting} (hmedium : setting.medium = .terminal)
    (hsep : escapeChar ∉ setting.separator) {root : Node} (hlacks : root.lacks escapeChar = true) :
    Balanced setting.active (layOut setting root) := by
  have hroot := settled_render hmedium hsep root hlacks
  have hblocks : ∀ block ∈ (render setting root).toBlocks, Balanced setting.active block := by
    cases hrender : render setting root with
    | piece text =>
      rw [hrender] at hroot
      exact Settled.nonempty hroot
    | blocks bs =>
      rw [hrender] at hroot
      exact hroot
  have htext : Balanced setting.active (joinWith "\n\n" (render setting root).toBlocks) :=
    (BalancedAll.of_forall hblocks).joinWith (by decide)
  unfold layOut
  dsimp only
  split
  · exact .nil _
  · exact htext.append (.bare _ (by decide))

/-- A terminal that starts in the default style and reads all that is written for it ends in that
style, having obeyed every sequence. -/
theorem feed_write {doc : Document} (hlacks : doc.content.lacks escapeChar = true) :
    ∃ written, write .terminal doc .standard = .ok written ∧
      (Scanner.start.feed written.value.toList).2 = ⟨.plain, [], 0⟩ := by
  have hbalanced : Balanced .plain (layOut ⟨.terminal, standardSeparator.toList, .plain, false⟩
      doc.content) := balanced_layOut rfl (by decide) hlacks
  obtain ⟨switches, hcarries, hstyle⟩ := hbalanced
  refine ⟨_, write_standard .terminal doc, ?_⟩
  rw [output, String.toList_ofList]
  have hafter := hcarries.after_eq .plain [] 0
  rw [hstyle] at hafter
  exact hafter

/-- A block and a broken line inside styles, a style repeated inside itself, styled headings, items,
cells and blanks at the end of a line. -/
theorem feed_write_mingled :
    let doc := Document.ofContent (.document [
      .branch .strong [.text "a", .branch .blockquote [.text "b\nc ",
        .branch .emphasis [.branch .strong [.text "d"], .lineBreak, .text " "]]],
      .heading 1 [.branch .strong [.text "h"], .branch .underline [.text "  "]],
      .list true [.listItem [.branch .strikeout [.text "x\ny"]]],
      .table [.tableRow [.tableCell true [.branch .strong [.text "p\nq"]],
        .tableCell false [.branch .underline [.text "r"]]]]])
    doc.content.lacks escapeChar = true ∧
      ∃ written, write .terminal doc .standard = .ok written ∧
        (Scanner.start.feed written.value.toList).2 = ⟨.plain, [], 0⟩ := by
  intro doc
  have hlacks : doc.content.lacks escapeChar = true := by decide +kernel
  exact ⟨hlacks, feed_write hlacks⟩

end Interchange.Layout
