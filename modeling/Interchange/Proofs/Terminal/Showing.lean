import Interchange.Proofs.Document.StyledText
import Interchange.Proofs.Layout.Stacking
import Interchange.Proofs.Terminal.Tokens

/-!
# What a written line shows

The style in force for a reader is, before and after the text of every node, the set of styles that
are on around that node for the writer. Each sequence that switches a style off undoes just the one
that switched it on, and a style that is on already is not switched at all.
-/
namespace Interchange.Terminal

open Layout (Setting)

/-- A text on one line that shows the given characters to a terminal in the given style, and leaves
the terminal as it was. -/
structure Shows (style : TextStyle) (cs : List Char) (shown : List (Char × TextStyle)) : Prop where
  whole : Whole cs
  unbroken : ∀ c ∈ cs, Text.isLineBreak c = false
  shownIn_eq : shownIn style (tokens cs) = shown
  after_eq : ∀ ignored dropped,
    Scanner.after ⟨style, ignored, dropped⟩ cs = ⟨style, ignored, dropped⟩

lemma isLineBreak_sequence {code : String} (h : code.toList.all (!Text.isLineBreak ·)) :
    ∀ c ∈ Layout.sequence code, Text.isLineBreak c = false := by
  intro c hc
  have hcode : ∀ c ∈ code.toList, Text.isLineBreak c = false := by simpa using h
  simp only [Layout.sequence, List.mem_append, List.mem_cons, List.not_mem_nil, or_false] at hc
  rcases hc with (rfl | rfl | hc) | rfl
  · decide
  · decide
  · exact hcode c hc
  · decide

/-- A sequence whose codes are all known shows nothing and changes the style only. -/
lemma after_spell {params : List Char} (h : ∀ c ∈ params, isLetter c = false)
    (hknown : ignoredCodes params = []) (style : TextStyle) (ignored : List String) (dropped : ℕ) :
    Scanner.after ⟨style, ignored, dropped⟩ (spell params) =
      ⟨applySgr style params, ignored, dropped⟩ := by
  have htokens : tokens (spell params) = [.sgr params] := by
    have happend := tokens_spell_append h []
    rwa [List.append_nil, tokens_nil] at happend
  simp [Scanner.after, htokens, styleAfter, ignoredIn, hknown, addCodes, droppedIn]

lemma applySgr_onCode (style : TextStyle) (flag : StyleFlag) :
    applySgr style (onCode flag).toList = style.set flag true := by
  cases flag <;> rfl

lemma applySgr_offCode (style : TextStyle) (flag : StyleFlag) :
    applySgr style (offCode flag).toList = style.set flag false := by
  cases flag <;> rfl

namespace Shows

variable {style : TextStyle} {cs ds : List Char} {shown shown' : List (Char × TextStyle)}

lemma styleAfter_eq (h : Shows style cs shown) : styleAfter style (tokens cs) = style :=
  congrArg Scanner.style (h.after_eq [] 0)

lemma nil (style : TextStyle) : Shows style [] [] where
  whole := .nil
  unbroken := by simp
  shownIn_eq := by rw [tokens_nil, shownIn]
  after_eq _ _ := Scanner.after_nil _

lemma append (h : Shows style cs shown) (h' : Shows style ds shown') :
    Shows style (cs ++ ds) (shown ++ shown') where
  whole := h.whole.append h'.whole
  unbroken c hc := (List.mem_append.1 hc).elim (h.unbroken c) (h'.unbroken c)
  shownIn_eq := by
    rw [h.whole, shownIn_append, h.shownIn_eq, h.styleAfter_eq, h'.shownIn_eq]
  after_eq ignored dropped := by
    rw [Scanner.after_append _ h.whole, h.after_eq, h'.after_eq]

/-- Text without sequences stands in the style in force. -/
lemma ofChars (style : TextStyle) (hescape : escapeChar ∉ cs)
    (hbreak : ∀ c ∈ cs, Text.isLineBreak c = false) : Shows style cs (cs.map (·, style)) := by
  induction cs with
  | nil => exact nil style
  | cons c cs ih =>
    simp only [List.mem_cons, not_or] at hescape
    obtain ⟨hc, hrest⟩ := List.forall_mem_cons.1 hbreak
    have hchar : tokens [c] = [.char c] := by
      rw [tokens_char_cons (Ne.symm hescape.1), tokens_nil]
    have hone : Shows style [c] [(c, style)] := by
      constructor
      · exact Whole.nil.cons (Ne.symm hescape.1)
      · simpa using hc
      · rw [hchar, shownIn, shownIn]
      · exact fun ignored dropped => Scanner.after_char _ (Ne.symm hescape.1)
    exact hone.append (ih hescape.2 hrest)

/-- Text in one more style, between the sequences that switch it on and off. -/
theorem switched {flag : StyleFlag} (h : Shows (style.set flag true) cs shown)
    (hoff : style.get flag = false) :
    Shows style (Layout.sequence (onCode flag) ++ cs ++ Layout.sequence (offCode flag)) shown := by
  have hon_spell : Layout.sequence (onCode flag) = spell (onCode flag).toList := rfl
  have hoff_spell : Layout.sequence (offCode flag) = spell (offCode flag).toList := rfl
  have hon_whole : Whole (Layout.sequence (onCode flag)) := .spell (isLetter_onCode flag)
  have hoff_whole : Whole (Layout.sequence (offCode flag)) := .spell (isLetter_offCode flag)
  have hrestored : (style.set flag true).set flag false = style := by
    rw [TextStyle.set_set, TextStyle.set_of_get hoff]
  have hon_known : ignoredCodes (onCode flag).toList = [] := by cases flag <;> decide
  have hoff_known : ignoredCodes (offCode flag).toList = [] := by cases flag <;> decide
  constructor
  · exact (hon_whole.append h.whole).append hoff_whole
  · intro c hc
    rw [List.mem_append, List.mem_append] at hc
    rcases hc with (hc | hc) | hc
    · exact isLineBreak_sequence (by cases flag <;> decide) c hc
    · exact h.unbroken c hc
    · exact isLineBreak_sequence (by cases flag <;> decide) c hc
  · have hlast := tokens_spell_append (isLetter_offCode flag) []
    rw [List.append_nil, tokens_nil] at hlast
    rw [List.append_assoc, hon_spell, tokens_spell_append (isLetter_onCode flag), h.whole,
      hoff_spell, hlast, shownIn, applySgr_onCode, shownIn_append, h.shownIn_eq, shownIn, shownIn,
      List.append_nil]
  · intro ignored dropped
    rw [Scanner.after_append _ (hon_whole.append h.whole), Scanner.after_append _ hon_whole,
      hon_spell, after_spell (isLetter_onCode flag) hon_known, applySgr_onCode, h.after_eq,
      hoff_spell, after_spell (isLetter_offCode flag) hoff_known, applySgr_offCode, hrestored]

/-- The writer switches a style only where it is not on and there is text. -/
theorem styled {setting : Setting} (hmedium : setting.medium = .terminal) {flag : StyleFlag}
    (h : Shows (setting.active.set flag true) cs shown) :
    Shows setting.active (setting.styled flag cs) shown := by
  cases hactive : setting.active.get flag with
  | true =>
    rw [TextStyle.set_of_get hactive] at h
    simpa [Setting.styled, hactive] using h
  | false =>
    by_cases hempty : cs = []
    · subst hempty
      have hnone : shown = [] := by
        rw [← h.shownIn_eq, tokens_nil, shownIn]
      rw [hnone]
      simpa [Setting.styled] using nil setting.active
    · simpa [Setting.styled, hmedium, hactive, hempty] using h.switched hactive

end Shows

/-- A piece of a line that shows a node as it is. -/
def ShowsNode (setting : Setting) (node : Node) : Prop :=
  ∃ cs, Layout.render setting node = .piece cs ∧
    Shows setting.active cs (node.styledChars setting.active)

lemma shows_inlineText {setting : Setting} {nodes : List Node}
    (h : ∀ node ∈ nodes, ShowsNode setting node) :
    Shows setting.active (Layout.inlineText (Layout.renderAll setting nodes))
      (Node.styledCharsAmong setting.active nodes) := by
  induction nodes with
  | nil => exact .nil _
  | cons node nodes ih =>
    obtain ⟨⟨cs, hrender, hshows⟩, hnodes⟩ := List.forall_mem_cons.1 h
    have hrest := ih hnodes
    rw [Layout.renderAll, hrender]
    exact hshows.append hrest

/-- The induction is on the nesting of the styles; the style in force is that of the setting. -/
theorem showsNode_of_isStyledText {node : Node} (h : node.IsStyledText) {setting : Setting}
    (hmedium : setting.medium = .terminal)
    (hclean : ∀ c ∈ node.textContent.toList, c ≠ escapeChar ∧ Text.isLineBreak c = false) :
    ShowsNode setting node := by
  induction h generalizing setting with
  | @text node kind leaf =>
    obtain ⟨kind, props, children, span⟩ := node
    subst kind leaf
    let content := (Bag.textOr props Key.content).toList
    have hchars : (Node.mk .text props [] span).styledChars setting.active =
        content.map (·, setting.active) := List.append_nil _
    have htext : (Node.mk .text props [] span).textContent.toList = content := by
      rw [← Node.map_fst_styledChars setting.active, hchars, List.map_map]
      exact List.map_id _
    rw [htext] at hclean
    refine ⟨content, rfl, ?_⟩
    rw [hchars]
    exact .ofChars _ (fun hmem => (hclean _ hmem).1 rfl) fun c hc => (hclean c hc).2
  | @styled node flag kind parts ih =>
    obtain ⟨kind, props, children, span⟩ := node
    subst kind
    let inner : Setting := { setting with inList := false, active := setting.active.set flag true }
    have hrole : Layout.roleOf flag.kind = .style := by cases flag <;> rfl
    have hflag : Layout.styleFlag? .style flag.kind = some flag := StyleFlag.ofKind?_kind flag
    have hinner : setting.within .style flag.kind = inner := by
      rw [Setting.within, hflag]
      rfl
    have hparts : ∀ part ∈ children, ShowsNode inner part := fun part hpart =>
      ih part hpart hmedium fun c hc => hclean c (Node.mem_textContent_of_mem_children hpart hc)
    have hown : (Node.mk flag.kind props children span).ownText = "" := by cases flag <;> rfl
    refine ⟨setting.styled flag (Layout.inlineText (Layout.renderAll inner children)), ?_, ?_⟩
    · rw [Layout.render]
      dsimp only
      rw [hrole]
      dsimp only
      rw [hinner, Setting.wrap, hflag]
    · rw [Node.styledChars_eq, hown, TextStyle.within_kind]
      exact (shows_inlineText hparts).styled hmedium

end Interchange.Terminal
