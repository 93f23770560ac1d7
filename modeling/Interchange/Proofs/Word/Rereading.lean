import Interchange.Proofs.Text.Paragraphs
import Interchange.Proofs.Word.Plain
import Interchange.Word.Library.Saving

/-!
# Reading what was written

Plain blocks are laid out as elements, and these are read as the entries of the blocks. Nothing is
noted, and nothing is added to the document.
-/
namespace Interchange.Word

open Finding
open Markup (Element)

@[simp] lemma w_inj {a b : String} : w a = w b ↔ a = b := by simp [w]

@[simp] lemma drawing_ne_w {a b : String} : drawing a ≠ w b := by simp [w, drawing, schemas]

@[simp] lemma name_branch (name : Markup.Name) (parts : List Element) :
    (Element.branch name parts).name = name := rfl

@[simp] lemma name_leaf (name : Markup.Name) (attributes : List Markup.Attribute) :
    (Element.leaf name attributes).name = name := rfl

@[simp] lemma name_ofText (name : Markup.Name) (text : String) :
    (Element.ofText name text).name = name := rfl

@[simp] lemma named_branch (parent : Markup.Name) (parts : List Element) (name : Markup.Name) :
    (Element.branch parent parts).named name = parts.filter (·.name = name) := by
  rw [Element.named, Element.children_branch]

@[simp] lemma first?_branch (parent : Markup.Name) (parts : List Element) (name : Markup.Name) :
    (Element.branch parent parts).first? name = parts.find? (·.name = name) := by
  rw [Element.first?, Element.children_branch]

@[simp] lemma deep_leaf (own : Markup.Name) (attributes : List Markup.Attribute)
    (name : Markup.Name) : (Element.leaf own attributes).deep name = [] := rfl

@[simp] lemma deep_ofText (own : Markup.Name) (text : String) (name : Markup.Name) :
    (Element.ofText own text).deep name = [] := rfl

@[simp] lemma deep_branch (parent : Markup.Name) (parts : List Element) (name : Markup.Name) :
    (Element.branch parent parts).deep name = parts.flatMap fun part =>
      (if part.name = name then [part] else []) ++ part.deep name := by
  rw [Element.deep, Element.branch, Element.descendants]
  induction parts with
  | nil => rfl
  | cons part parts ih =>
    rw [List.map_cons, Element.descendantsIn, List.cons_append, List.filter_cons,
      List.filter_append, ih, List.flatMap_cons]
    split
    · next h => simp [Element.deep, of_decide_eq_true h]
    · next h => simp [Element.deep, show ¬part.name = name by simpa using h]

@[simp] lemma need_some {α : Type} (a : α) : need (some a) = pure a := rfl

/-- Characters that stand for themselves are one part of a run. -/
lemma ofChars_of_printable {cs : List Char} (h : ∀ c ∈ cs, ' ' ≤ c) :
    RunPart.ofChars cs = if cs.isEmpty then [] else [.text cs] := by
  have hbreak : ∀ c : Char, ' ' ≤ c → c ≠ '\t' ∧ c ≠ '\n' ∧ c ≠ '\r' := by
    rintro c hc
    refine ⟨?_, ?_, ?_⟩ <;> rintro rfl <;> exact absurd hc (by decide)
  induction cs with
  | nil => rfl
  | cons c cs ih =>
    obtain ⟨hc, hcs⟩ := List.forall_mem_cons.1 h
    obtain ⟨htab, hline, hreturn⟩ := hbreak c hc
    rw [RunPart.ofChars, if_neg htab, if_neg (by simp [hline, hreturn]), ih hcs]
    cases cs <;> rfl

/-- The style of a run as it is laid out. -/
def styleElement (style : TextStyle) : Element := .branch (w "rPr") (plainFormat style).elements

@[simp] lemma name_styleElement (style : TextStyle) : (styleElement style).name = w "rPr" := rfl

lemma element_run (index : Index) (piece : Piece) : piece.run.element index =
    .branch (w "r") (styleElement piece.style ::
      if piece.text.isEmpty then [] else [.ofText (w "t") (String.ofList piece.text)]) := by
  rw [Piece.run, Run.ofText, Run.element, String.toList_ofList,
    ofChars_of_printable piece.printable]
  split <;> rfl

/-- What the properties of a run say is what its style says. -/
lemma font_styleElement : ∀ bold italic underline strikethrough : Bool,
    let style : TextStyle := ⟨bold, italic, underline, strikethrough⟩
    let run : Element := .branch (w "r") [styleElement style]
    Font.style? run = some style ∧ Font.script? run = some none ∧
      Font.switchOn? run "smallCaps" = some false ∧ Font.isOwn? run = some false := by
  decide +kernel

lemma font_run (style : TextStyle) (parts : List Element) :
    let run : Element := .branch (w "r") (styleElement style :: parts)
    Font.style? run = some style ∧ Font.script? run = some none ∧
      Font.switchOn? run "smallCaps" = some false ∧ Font.isOwn? run = some false := by
  intro run
  have hproperty (name : String) : Font.property? run name =
      Font.property? (.branch (w "r") [styleElement style]) name := by
    rw [Font.property?, Font.property?, first?_branch, first?_branch]
    rfl
  obtain ⟨bold, italic, underline, strikethrough⟩ := style
  have hfont := font_styleElement bold italic underline strikethrough
  simp only [Font.style?, Font.script?, Font.switchOn?, Font.isOwn?, Font.hasFace, Font.hasSize?,
    Font.hasColor?, Font.underlined?, hproperty] at hfont ⊢
  exact hfont

/-- The names of what a run of plain text holds. -/
def runNames : List String := ["rPr", "b", "i", "strike", "u", "t"]

lemma elements_plainFormat (style : TextStyle) : (plainFormat style).elements =
    switched "b" style.bold ++ switched "i" style.italic ++ switched "strike" style.strikethrough ++
      if style.underline then [valued "u" "single"] else [] := by
  obtain ⟨bold, italic, underline, strikethrough⟩ := style
  cases bold <;> cases italic <;> cases underline <;> cases strikethrough <;> rfl

lemma of_mem_elements (style : TextStyle) : ∀ e ∈ (plainFormat style).elements,
    ∃ own ∈ runNames, ∃ attributes, e = .leaf (w own) attributes := by
  have hswitched (own : String) (on : Bool) : ∀ e ∈ switched own on, e = .leaf (w own) := by
    cases on <;> simp [switched]
  intro e he
  rw [elements_plainFormat, List.mem_append, List.mem_append, List.mem_append] at he
  rcases he with ((he | he) | he) | he
  · exact ⟨"b", by decide, [], hswitched _ _ e he⟩
  · exact ⟨"i", by decide, [], hswitched _ _ e he⟩
  · exact ⟨"strike", by decide, [], hswitched _ _ e he⟩
  · split at he
    · exact ⟨"u", by decide, _, List.mem_singleton.1 he⟩
    · cases he

lemma deep_styleElement (style : TextStyle) {name : Markup.Name}
    (h : ∀ own ∈ runNames, w own ≠ name) : (styleElement style).deep name = [] := by
  rw [styleElement, deep_branch, List.flatMap_eq_nil_iff]
  intro e he
  obtain ⟨own, hown, attributes, rfl⟩ := of_mem_elements style e he
  have hname : (Element.leaf (w own) attributes).name ≠ name := h own hown
  rw [if_neg hname, deep_leaf]
  rfl

lemma deep_run (index : Index) (piece : Piece) {name : Markup.Name}
    (h : ∀ own ∈ runNames, w own ≠ name) : (piece.run.element index).deep name = [] := by
  have hstyle : (styleElement piece.style).name ≠ name := h "rPr" (by decide)
  have htext : w "t" ≠ name := h "t" (by decide)
  rw [element_run, deep_branch, List.flatMap_cons, if_neg hstyle, deep_styleElement _ h]
  split
  · rfl
  · simp [htext]

/-- A run without references, pictures and a font of its own is read as its lines. -/
lemma run_of_lines (source : Source) {run : Element} {nodes : List Node}
    (hreferences : run.named (w "footnoteReference") = [])
    (hpictures : run.deep (drawing "blip") = []) (hown : Font.isOwn? run = some false)
    (hlines : Inline.lineNodes run (Text.splitAt '\n' (Inline.runText run).toList) = some nodes) :
    Inline.run source run = pure nodes := by
  unfold Inline.run
  dsimp only
  rw [hreferences, hpictures, hown, hlines]
  simp

/-- A run of plain text is read as this text in its style. -/
theorem run_piece (source : Source) (index : Index) (piece : Piece) :
    Inline.run source (piece.run.element index) = pure piece.nodes := by
  obtain ⟨hstyle, hscript, hcapitals, hown⟩ := font_run piece.style
    (if piece.text.isEmpty then [] else [.ofText (w "t") (String.ofList piece.text)])
  rw [← element_run index piece] at hstyle hscript hcapitals hown
  have hreferences : (piece.run.element index).named (w "footnoteReference") = [] := by
    rw [element_run]
    split <;> simp [styleElement]
  have hpictures : (piece.run.element index).deep (drawing "blip") = [] :=
    deep_run index piece fun own _ => (drawing_ne_w).symm
  have htext : Inline.runText (piece.run.element index) = String.ofList piece.text := by
    have hpiece : Inline.piece (styleElement piece.style) = "" := by
      simp [Inline.piece, styleElement]
    have hown : Inline.piece (.ofText (w "t") (String.ofList piece.text)) =
        String.ofList piece.text := if_pos rfl
    rw [element_run, Inline.runText, Element.children_branch, List.map_cons, hpiece]
    split
    · next hempty =>
      rw [List.isEmpty_iff.1 hempty]
      rfl
    · rw [List.map_singleton, hown]
      simp [String.join]
  have hbreak : '\n' ∉ piece.text := fun hmem =>
    absurd (piece.printable _ hmem) (by decide)
  have hline : Text.splitAt '\n' piece.text = [piece.text] := by
    simpa [Text.splitAt] using Text.splitAt_append hbreak []
  have hstyled : Font.styled? (piece.run.element index) (String.ofList piece.text) =
      some ((Node.text (String.ofList piece.text)).styled piece.style) := by
    rw [Font.styled?, hscript, hcapitals, hstyle]
    rfl
  have hlines : Inline.lineNodes (piece.run.element index) (Text.splitAt '\n' piece.text) =
      some piece.nodes := by
    rw [hline, Inline.lineNodes, hstyled, Inline.lineNodes, Piece.nodes]
    split <;> rfl
  refine run_of_lines source hreferences hpictures hown ?_
  rw [htext, String.toList_ofList]
  exact hlines

lemma name_valued (name value : String) : (valued name value).name = w name := rfl

lemma deep_valued (own value : String) (name : Markup.Name) : (valued own value).deep name = [] :=
  rfl

/-- The properties of a paragraph as they are laid out. -/
def propertiesElement (style : Option String) (alignment : Option Alignment) : Element :=
  .branch (w "pPr") ((style.map fun name => valued "pStyle" (Style.idOfName name)).toList ++
    (alignment.map fun alignment => valued "jc" alignment.code).toList)

@[simp] lemma name_propertiesElement (style : Option String) (alignment : Option Alignment) :
    (propertiesElement style alignment).name = w "pPr" := rfl

/-- A paragraph of runs as it is laid out. -/
def paragraphElement (style : Option String) (alignment : Option Alignment)
    (runs : List Element) : Element :=
  .branch (w "p") (propertiesElement style alignment :: runs)

def lineElement (index : Index) (style : Option String) (alignment : Option Alignment)
    (line : PlainLine) : Element :=
  paragraphElement style alignment (line.map fun piece => piece.run.element index)

lemma element_lineBlock (index : Index) (style : Option String) (alignment : Option Alignment)
    (line : PlainLine) : (PlainBlock.lineBlock style alignment line).element index =
      lineElement index style alignment line := by
  have hitems : line.items.map (·.element index) = line.map fun piece => piece.run.element index :=
    List.map_map
  rw [PlainBlock.lineBlock, Block.element, Paragraph.element, hitems]
  cases style <;> cases alignment <;> rfl

lemma mapM_eq_pure {α β : Type} {m : Type → Type} [Monad m] [LawfulMonad m] {f : α → m β}
    {g : α → β} {items : List α} (h : ∀ a ∈ items, f a = pure (g a)) :
    items.mapM f = pure (items.map g) := by
  induction items with
  | nil => rfl
  | cons a items ih =>
    obtain ⟨ha, hitems⟩ := List.forall_mem_cons.1 h
    rw [List.mapM_cons, ha, ih hitems, pure_bind, pure_bind]
    rfl

section Paragraph

variable (style : Option String) (alignment : Option Alignment) (runs : List Element)

lemma property?_pStyle : Body.property? (paragraphElement style alignment runs) "pStyle" =
    style.map fun name => valued "pStyle" (Style.idOfName name) := by
  have hfirst : (paragraphElement style alignment runs).first? (w "pPr") =
      some (propertiesElement style alignment) := first?_branch _ _ _
  rw [Body.property?, hfirst, Option.bind_some, propertiesElement, first?_branch]
  cases style <;> cases alignment <;> simp [name_valued]

lemma alignment?_paragraphElement :
    Body.alignment? (paragraphElement style alignment runs) = some alignment := by
  have hfirst : (paragraphElement style alignment runs).first? (w "pPr") =
      some (propertiesElement style alignment) := first?_branch _ _ _
  have hproperty : Body.property? (paragraphElement style alignment runs) "jc" =
      alignment.map fun alignment => valued "jc" alignment.code := by
    rw [Body.property?, hfirst, Option.bind_some, propertiesElement, first?_branch]
    cases style <;> cases alignment <;> simp [name_valued]
  rw [Body.alignment?, hproperty]
  cases alignment with
  | none => rfl
  | some alignment => exact Alignment.ofCode?_code alignment

variable {runs} in
lemma numbering?_paragraphElement (h : ∀ run ∈ runs, run.name = w "r") :
    Body.numbering? (paragraphElement style alignment runs) = none := by
  have hproperties : (propertiesElement style alignment).named (w "numPr") = [] := by
    rw [propertiesElement, named_branch]
    cases style <;> cases alignment <;> simp [name_valued]
  have hruns : runs.filter (·.name = w "pPr") = [] :=
    List.filter_eq_nil_iff.2 fun run hrun => by simp [h run hrun]
  rw [Body.numbering?, paragraphElement, named_branch, List.filter_cons_of_pos (by rfl), hruns,
    List.flatMap_singleton, hproperties]
  rfl

variable {runs} in
lemma deep_paragraphElement {name : Markup.Name} (hname : ∀ own ∈ ["pPr", "pStyle", "jc"],
    w own ≠ name) : (paragraphElement style alignment runs).deep name =
      runs.flatMap fun run => (if run.name = name then [run] else []) ++ run.deep name := by
  obtain ⟨hown, hstyle, halignment, -⟩ : w "pPr" ≠ name ∧ w "pStyle" ≠ name ∧ w "jc" ≠ name ∧
      True := by simpa using hname
  have hproperties : (propertiesElement style alignment).deep name = [] := by
    rw [propertiesElement, deep_branch]
    cases style <;> cases alignment <;> simp [name_valued, deep_valued, hstyle, halignment]
  rw [paragraphElement, deep_branch, List.flatMap_cons, hproperties]
  simp [hown]

end Paragraph

section Line

variable (source : Source) (index : Index) (style : Option String) (alignment : Option Alignment)
  (line : PlainLine)

lemma item_propertiesElement :
    Inline.item source (propertiesElement style alignment) = pure [] := by
  simp [Inline.item]

theorem ofParagraph_line :
    Inline.ofParagraph source (lineElement index style alignment line) = pure line.nodes := by
  have hruns : (line.map fun piece => piece.run.element index).mapM (Inline.item source) =
      pure (line.map Piece.nodes) := by
    rw [List.mapM_map]
    refine mapM_eq_pure fun piece _ => ?_
    have hitem : Inline.item source (piece.run.element index) =
        Inline.run source (piece.run.element index) := if_pos rfl
    exact hitem.trans (run_piece source index piece)
  rw [Inline.ofParagraph, lineElement, paragraphElement, Element.children_branch, List.mapM_cons,
    item_propertiesElement, hruns]
  rfl

lemma name_of_mem_runs :
    ∀ run ∈ line.map fun piece => piece.run.element index, run.name = w "r" := by
  intro run hrun
  obtain ⟨piece, -, rfl⟩ := List.mem_map.1 hrun
  rfl

lemma numbering?_line : Body.numbering? (lineElement index style alignment line) = none :=
  numbering?_paragraphElement style alignment (name_of_mem_runs index line)

lemma endsPage_line : Body.endsPage (lineElement index style alignment line) = false := by
  have hruns : (line.map fun piece => piece.run.element index).flatMap (fun part =>
      (if part.name = w "br" then [part] else []) ++ part.deep (w "br")) = [] := by
    rw [List.flatMap_map, List.flatMap_eq_nil_iff]
    intro piece _
    rw [deep_run index piece (by simp [runNames])]
    simp [Run.element]
  rw [Body.endsPage, lineElement, deep_paragraphElement _ _ (by simp), hruns, List.any_nil]

end Line

/-- The styles of lines that are no plain paragraphs. -/
def lineStyles : List String :=
  (List.finRange 6).map headingName ++ [false, true].map (Spot.listStyle · 0)

/-- The name of a style of lines is found by what it is laid out as. -/
lemma shownName_lineStyles : ∀ name ∈ lineStyles,
    ((Styles.standard.ofReference? (some (Style.idOfName name))).map fun style =>
      Style.shownName style.name) = some name := by
  decide +kernel

lemma shownName_default :
    ((Styles.standard.ofReference? none).map fun style => Style.shownName style.name) =
      some "Normal" := by
  decide +kernel

lemma headingName_mem (level : Fin 6) : headingName level ∈ lineStyles :=
  List.mem_append_left _ (List.mem_map_of_mem (List.mem_finRange level))

lemma listStyle_mem (ordered : Bool) : Spot.listStyle ordered 0 ∈ lineStyles :=
  List.mem_append_right _ (List.mem_map_of_mem (by cases ordered <;> decide))

/-- A paragraph that is no item becomes an entry of its own. -/
lemma paragraph_of_plain? {source : Source} {element : Element} {nodes : List Node} {name : String}
    {entry : Entry} (hnodes : Inline.ofParagraph source element = pure nodes)
    (hname : Body.styleName? source element = some name)
    (hkind : Body.listKind? name element = none)
    (hentry : Body.plain? name element nodes = some entry) :
    Body.paragraph source element =
      pure (if Body.endsPage element then [entry, .pageBreak] else [entry]) := by
  unfold Body.paragraph
  rw [hnodes, hname]
  simp only [pure_bind, need_some, hkind, hentry]

lemma listKind?_of_startsWith {name : String} {element : Element}
    (hnumber : name.startsWith "List Number" = false)
    (hbullet : name.startsWith "List Bullet" = false) (h : Body.numbering? element = none) :
    Body.listKind? name element = none := by
  simp [Body.listKind?, hnumber, hbullet, h]

section Styles

variable {source : Source} (hstyles : source.styles = some .standard)
  (alignment : Option Alignment) (runs : List Element)

include hstyles

lemma styleName?_styled {name : String} (h : name ∈ lineStyles) :
    Body.styleName? source (paragraphElement (some name) alignment runs) = some name := by
  have hvalue : (valued "pStyle" (Style.idOfName name)).attribute? (w "val") =
      some (Style.idOfName name) := by
    simp [valued, Element.leaf, Element.attribute?]
  rw [Body.styleName?, hstyles, property?_pStyle]
  simp only [Option.map_some, Option.bind_eq_bind, Option.bind_some, hvalue,
    shownName_lineStyles name h, Option.getD_some]

lemma styleName?_plain :
    Body.styleName? source (paragraphElement none alignment runs) = some "Normal" := by
  rw [Body.styleName?, hstyles, property?_pStyle]
  simp only [Option.map_none, Option.bind_eq_bind, Option.bind_some, shownName_default,
    Option.getD_some]

end Styles

lemma listKind?_normal {element : Element} (h : Body.numbering? element = none) :
    Body.listKind? "Normal" element = none := by
  have hnumber : "Normal".startsWith "List Number" = false := by decide +kernel
  have hbullet : "Normal".startsWith "List Bullet" = false := by decide +kernel
  exact listKind?_of_startsWith hnumber hbullet h

lemma headingLevel?_normal : Body.headingLevel? "Normal" = none := by decide +kernel

section Entries

variable {source : Source} (hstyles : source.styles = some .standard) (index : Index)
  (line : PlainLine)

include hstyles

theorem paragraph_heading (level : Fin 6) :
    Body.paragraph source (lineElement index (some (headingName level)) none line) =
      pure [.block (PlainBlock.heading level line).node] := by
  have hnumber : ∀ level : Fin 6, (headingName level).startsWith "List Number" = false := by
    decide +kernel
  have hbullet : ∀ level : Fin 6, (headingName level).startsWith "List Bullet" = false := by
    decide +kernel
  have hlevel : ∀ level : Fin 6,
      Body.headingLevel? (headingName level) = some (level.val + 1) := by
    decide +kernel
  have hkind := listKind?_of_startsWith (hnumber level) (hbullet level)
    (numbering?_line index (some (headingName level)) none line)
  have hentry : Body.plain? (headingName level)
      (lineElement index (some (headingName level)) none line) line.nodes =
        some (.block (PlainBlock.heading level line).node) := by
    rw [Body.plain?, hlevel]
    rfl
  rw [paragraph_of_plain? (ofParagraph_line source index _ none line)
    (styleName?_styled hstyles none _ (headingName_mem level)) hkind hentry, endsPage_line]
  rfl

theorem paragraph_plain (alignment : Option Alignment) (filled : line.chars ≠ []) :
    Body.paragraph source (lineElement index none alignment line) =
      pure [.block (PlainBlock.paragraph alignment line filled).node] := by
  have hkind := listKind?_normal (numbering?_line index none alignment line)
  have hentry : Body.plain? "Normal" (lineElement index none alignment line) line.nodes =
      some (.block (PlainBlock.paragraph alignment line filled).node) := by
    have hnodes : line.nodes.isEmpty = false := by simpa using PlainLine.nodes_ne_nil filled
    rw [Body.plain?, headingLevel?_normal, hnodes, lineElement, alignment?_paragraphElement]
    cases alignment <;> rfl
  rw [paragraph_of_plain? (ofParagraph_line source index none alignment line)
    (styleName?_plain hstyles alignment _) hkind hentry, endsPage_line]
  rfl

theorem paragraph_item (ordered : Bool) :
    Body.paragraph source (lineElement index (some (Spot.listStyle ordered 0)) none line) =
      pure [.item ordered (PlainBlock.itemNode line)] := by
  have hnumber : ∀ ordered, (Spot.listStyle ordered 0).startsWith "List Number" = ordered := by
    decide +kernel
  have hbullet : ∀ ordered, (Spot.listStyle ordered 0).startsWith "List Bullet" = !ordered := by
    decide +kernel
  have hkind : Body.listKind? (Spot.listStyle ordered 0)
      (lineElement index (some (Spot.listStyle ordered 0)) none line) = some ordered := by
    rw [Body.listKind?, hnumber, hbullet]
    cases ordered <;> rfl
  have hnested : Body.isNested (lineElement index (some (Spot.listStyle ordered 0)) none line) =
      false := by
    rw [Body.isNested, numbering?_line]
    rfl
  have hname : Body.styleName? source
      (lineElement index (some (Spot.listStyle ordered 0)) none line) =
        some (Spot.listStyle ordered 0) := styleName?_styled hstyles none _ (listStyle_mem ordered)
  unfold Body.paragraph
  rw [ofParagraph_line, hname, endsPage_line]
  simp only [pure_bind, need_some, hkind, hnested, Bool.false_eq_true, if_false]
  rfl

end Entries

def breakRun : Element :=
  .branch (w "r") [styleElement .plain, .leaf (w "br") [⟨w "type", "page"⟩]]

/-- A paragraph that ends a page and holds nothing else. -/
def breakElement : Element := paragraphElement none none [breakRun]

lemma ofParagraph_break (source : Source) : Inline.ofParagraph source breakElement = pure [] := by
  have hpictures : breakRun.deep (drawing "blip") = [] := by
    have hstyle : (styleElement .plain).deep (drawing "blip") = [] :=
      deep_styleElement .plain fun own _ => drawing_ne_w.symm
    simp [breakRun, hstyle, drawing_ne_w.symm]
  have hreferences : breakRun.named (w "footnoteReference") = [] := by simp [breakRun]
  have hrun : Inline.run source breakRun = pure [] :=
    run_of_lines source hreferences hpictures (font_run .plain _).2.2.2 rfl
  have hitem : Inline.item source breakRun = Inline.run source breakRun := if_pos rfl
  rw [Inline.ofParagraph, breakElement, paragraphElement, Element.children_branch, List.mapM_cons,
    item_propertiesElement, List.mapM_cons, hitem, hrun]
  rfl

theorem paragraph_break {source : Source} (hstyles : source.styles = some .standard) :
    Body.paragraph source breakElement = pure [.nothing, .pageBreak] := by
  have hkind : Body.listKind? "Normal" breakElement = none :=
    listKind?_normal (numbering?_paragraphElement none none (List.forall_mem_singleton.2 rfl))
  have hentry : Body.plain? "Normal" breakElement [] = some .nothing := by
    rw [Body.plain?, headingLevel?_normal]
    rfl
  have hends : Body.endsPage breakElement = true := by
    rw [Body.endsPage, breakElement, deep_paragraphElement _ _ (by simp)]
    simp [breakRun, Element.leaf, Element.attribute?]
  rw [paragraph_of_plain? (ofParagraph_break source) (styleName?_plain hstyles none _) hkind hentry,
    hends]
  rfl

section Rows

variable (source : Source) (index : Index)

/-- A line as a cell. -/
def cellElement (line : PlainLine) : Element := .branch (w "tc") [lineElement index none none line]

def rowElement (row : List PlainLine) : Element := .branch (w "tr") (row.map (cellElement index))

lemma cell_line (header : Bool) (line : PlainLine) :
    Body.cell source header (cellElement index line) = pure (PlainBlock.cellNode header line) := by
  have hparagraphs :
      (cellElement index line).named (w "p") = [lineElement index none none line] := by
    rw [cellElement, named_branch]
    exact List.filter_cons_of_pos (by rfl)
  rw [Body.cell, hparagraphs, List.mapM_cons, ofParagraph_line]
  rfl

lemma ofElement_cell (line : PlainLine) :
    GridCell.ofElement (cellElement index line) = ⟨cellElement index line, some 1, false⟩ := by
  have hproperties : (cellElement index line).first? (w "tcPr") = none := by
    rw [cellElement, first?_branch]
    simp [lineElement, paragraphElement]
  rw [GridCell.ofElement, hproperties]
  rfl

lemma ofElement_row (row : List PlainLine) : GridRow.ofElement (rowElement index row) =
    ⟨some 0, row.map fun line => ⟨cellElement index line, some 1, false⟩⟩ := by
  have hproperties : (rowElement index row).first? (w "trPr") = none := by
    rw [rowElement, first?_branch]
    simp [cellElement]
  have hcells : (rowElement index row).named (w "tc") = row.map (cellElement index) := by
    rw [rowElement, named_branch, List.filter_eq_self]
    simp [cellElement]
  rw [GridRow.ofElement, hproperties, hcells, List.map_map]
  exact congrArg _ (List.map_congr_left fun line _ => ofElement_cell index line)

/-- Every cell holds its own content and takes up one column. -/
lemma placedCells?_row (row : List PlainLine) (above : List GridRow) :
    (GridRow.ofElement (rowElement index row)).placedCells? above =
      some (row.zipIdx.map fun cell => ⟨⟨0, cell.2⟩, cellElement index cell.1⟩) := by
  have hrow := ofElement_row index row
  have hindices : List.range (GridRow.ofElement (rowElement index row)).cells.length =
      row.zipIdx.map Prod.snd := by
    rw [hrow, List.length_map, List.zipIdx_map_snd, List.range_eq_range']
  have hplaced : ∀ cell ∈ row.zipIdx,
      (GridRow.ofElement (rowElement index row)).placed? 0 above cell.2 =
        pure [⟨⟨0, cell.2⟩, cellElement index cell.1⟩] := by
    intro cell hcell
    have hget : (GridRow.ofElement (rowElement index row)).cells[cell.2]? =
        some ⟨cellElement index cell.1, some 1, false⟩ := by
      rw [hrow, List.getElem?_map, List.mem_zipIdx_iff_getElem?.1 hcell]
      rfl
    cases above <;> rw [GridRow.placed?, hget] <;> rfl
  have hflatten (cells : List (PlainLine × ℕ)) : (cells.map fun cell =>
      [(⟨⟨0, cell.2⟩, cellElement index cell.1⟩ : PlacedCell)]).flatten =
        cells.map fun cell => ⟨⟨0, cell.2⟩, cellElement index cell.1⟩ := by
    induction cells with
    | nil => rfl
    | cons cell cells ih => rw [List.map_cons, List.flatten_cons, ih]; rfl
  rw [GridRow.placedCells?, hindices, List.mapM_map]
  have hcells := mapM_eq_pure hplaced
  have hmapM : row.zipIdx.mapM ((GridRow.ofElement (rowElement index row)).placed? 0 above ∘
      Prod.snd) = pure (row.zipIdx.map fun cell => [⟨⟨0, cell.2⟩, cellElement index cell.1⟩]) :=
    hcells
  rw [hmapM]
  exact congrArg some (hflatten _)

lemma cells_zipIdx (header : Bool) (row : List PlainLine) (start : ℕ) (seen : List GridPlace)
    (hseen : ∀ place ∈ seen, place.index < start) :
    Body.cells source header seen ((row.zipIdx start).map fun cell =>
        ⟨⟨0, cell.2⟩, cellElement index cell.1⟩) =
      pure (row.map (PlainBlock.cellNode header)) := by
  induction row generalizing start seen with
  | nil => rfl
  | cons line row ih =>
    have hnew : (⟨0, start⟩ : GridPlace) ∉ seen := fun hmem => Nat.lt_irrefl _ (hseen _ hmem)
    rw [List.zipIdx_cons, List.map_cons, Body.cells, if_neg hnew, cell_line, ih]
    · rfl
    · intro place hplace
      rcases List.mem_cons.1 hplace with rfl | hmem
      · exact Nat.lt_succ_self _
      · exact Nat.lt_succ_of_lt (hseen place hmem)

theorem rows_elements (above : List GridRow) (rows : List (List PlainLine)) :
    Body.rows source above ((rows.map (rowElement index)).map .ofElement) =
      pure (PlainBlock.rowNodes above.isEmpty rows) := by
  induction rows generalizing above with
  | nil => rfl
  | cons row rows ih =>
    rw [List.map_cons, List.map_cons, Body.rows, placedCells?_row, need_some, pure_bind,
      cells_zipIdx _ _ _ _ _ _ (List.forall_mem_nil _), pure_bind, ih]
    rfl

/-- A table as it is laid out. -/
def tableElement (style : Option String) (rows : List (List PlainLine)) : Element :=
  .branch (w "tbl") (.branch (w "tblPr") (style.map (valued "tblStyle")).toList ::
    rows.map (rowElement index))

theorem table_rows (style : Option String) (rows : List (List PlainLine)) :
    Body.table source (tableElement index style rows) = pure (PlainBlock.table rows).node := by
  have hrows : (tableElement index style rows).named (w "tr") = rows.map (rowElement index) := by
    have hall : (rows.map (rowElement index)).filter (·.name = w "tr") =
        rows.map (rowElement index) := by
      rw [List.filter_eq_self]
      simp [rowElement]
    rw [tableElement, named_branch, List.filter_cons_of_neg (by simp), hall]
  rw [Body.table, hrows, rows_elements]
  rfl

end Rows

/-- What an element of a body is read as. -/
def ReadsAs (source : Source) (elements : List Element) (entries : List Entry) : Prop :=
  ∃ parts, elements.mapM (Body.entries source) = pure parts ∧ parts.flatten = entries

namespace ReadsAs

variable {source : Source} {elements others : List Element} {entries more : List Entry}

lemma nil : ReadsAs source [] [] := ⟨[], rfl, rfl⟩

lemma singleton {element : Element} (h : Body.entries source element = pure entries) :
    ReadsAs source [element] entries := by
  refine ⟨[entries], ?_, by simp⟩
  rw [List.mapM_cons, h]
  rfl

lemma append (h : ReadsAs source elements entries) (h' : ReadsAs source others more) :
    ReadsAs source (elements ++ others) (entries ++ more) := by
  obtain ⟨parts, hparts, rfl⟩ := h
  obtain ⟨rest, hrest, rfl⟩ := h'
  refine ⟨parts ++ rest, ?_, List.flatten_append⟩
  rw [List.mapM_append, hparts, hrest]
  rfl

lemma paragraph {element : Element} (hname : element.name = w "p")
    (h : Body.paragraph source element = pure entries) : ReadsAs source [element] entries := by
  refine singleton ?_
  rw [Body.entries, if_neg (by simp [hname]), if_pos hname]
  exact h

end ReadsAs

lemma element_table (index : Index) (style : Option String) (rows : List (List PlainLine)) :
    (Block.table style (rows.map fun row => row.map fun line =>
      [PlainBlock.lineBlock none none line])).element index = tableElement index style rows := by
  have hcells (row : List PlainLine) : cellElements index (row.map fun line =>
      [PlainBlock.lineBlock none none line]) = row.map (cellElement index) := by
    induction row with
    | nil => rfl
    | cons line row ih =>
      rw [List.map_cons, cellElements, ih, blockElements, blockElements, element_lineBlock]
      rfl
  have hrows : rowElements index (rows.map fun row => row.map fun line =>
      [PlainBlock.lineBlock none none line]) = rows.map (rowElement index) := by
    induction rows with
    | nil => rfl
    | cons row rows ih =>
      rw [List.map_cons, rowElements, hcells, ih]
      rfl
  cases style <;> rw [Block.element, hrows] <;> rfl

/-- A plain block is read as its entries. -/
theorem readsAs_written {source : Source} (hstyles : source.styles = some .standard)
    (index : Index) (style : Option String) (block : PlainBlock) :
    ReadsAs source ((block.written style).map (·.element index)) block.entries := by
  cases block with
  | heading level line =>
    rw [PlainBlock.written, List.map_singleton, element_lineBlock]
    exact .paragraph rfl (paragraph_heading hstyles index line level)
  | paragraph alignment line filled =>
    rw [PlainBlock.written, List.map_singleton, element_lineBlock]
    exact .paragraph rfl (paragraph_plain hstyles index line alignment filled)
  | pageBreak => exact .paragraph rfl (paragraph_break hstyles)
  | list ordered items filled =>
    rw [PlainBlock.written, PlainBlock.entries, List.map_map]
    clear filled
    induction items with
    | nil => exact .nil
    | cons line items ih =>
      have hitem : ReadsAs source [lineElement index (some (Spot.listStyle ordered 0)) none line]
          [.item ordered (PlainBlock.itemNode line)] :=
        .paragraph rfl (paragraph_item hstyles index line ordered)
      rw [← element_lineBlock] at hitem
      exact hitem.append ih
  | table rows =>
    rw [PlainBlock.written, List.map_singleton, element_table]
    have hname : (tableElement index style rows).name = w "tbl" := rfl
    refine .singleton ?_
    rw [Body.entries, if_pos hname, table_rows]
    rfl

end Interchange.Word
