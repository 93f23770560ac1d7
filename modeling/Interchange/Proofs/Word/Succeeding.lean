import Interchange.Proofs.Word.RoundTrip

/-!
# Compositions that can be read

Nothing in the package of a composition is damaged. Every step of the reader has a result there,
whatever the composition holds, and the core properties that were put in come out.
-/
namespace Interchange.Word

open Finding
open Markup (Element)

namespace Finding

variable {α β : Type}

/-- There is a result, whatever was found before. -/
def Succeeds (finding : Finding α) : Prop := ∀ before, ∃ result, finding before = some result

lemma succeeds_pure (a : α) : Succeeds (pure a) := fun before => ⟨(a, before), rfl⟩

lemma Succeeds.bind {first : Finding α} {next : α → Finding β} (hfirst : Succeeds first)
    (hnext : ∀ a, Succeeds (next a)) : Succeeds (first >>= next) := by
  intro before
  obtain ⟨⟨a, middle⟩, ha⟩ := hfirst before
  obtain ⟨result, hresult⟩ := hnext a middle
  exact ⟨result, Option.bind_eq_some_iff.2 ⟨(a, middle), ha, hresult⟩⟩

lemma succeeds_note (notice : Notice) : Succeeds (note notice) := fun _ => ⟨_, rfl⟩

lemma succeeds_embed (resource : Resource) : Succeeds (embed resource) := fun _ => ⟨_, rfl⟩

lemma succeeds_need {value : Option α} (h : ∃ a, value = some a) : Succeeds (need value) := by
  obtain ⟨a, rfl⟩ := h
  exact succeeds_pure a

lemma succeeds_mapM {step : α → Finding β} {items : List α} (h : ∀ a ∈ items, Succeeds (step a)) :
    Succeeds (items.mapM step) := by
  induction items with
  | nil => exact succeeds_pure []
  | cons a items ih =>
    obtain ⟨ha, hitems⟩ := List.forall_mem_cons.1 h
    rw [List.mapM_cons]
    exact ha.bind fun b => (ih hitems).bind fun bs => succeeds_pure (b :: bs)

lemma succeeds_forM_note (notices : List Notice) : Succeeds (notices.forM note) := by
  induction notices with
  | nil => exact succeeds_pure ()
  | cons notice notices ih => exact (succeeds_note notice).bind fun _ => ih

end Finding

namespace RunFormat

variable {format : RunFormat} {parts : List Element}

/-- The switches of a format. -/
def switches : List String := ["b", "i", "smallCaps", "strike"]

/-- What a format is laid out as. -/
inductive IsElement : Element → Prop
  | face (attributes : List Markup.Attribute) : IsElement (.leaf (w "rFonts") attributes)
  | on (name : String) (h : name ∈ switches) : IsElement (.leaf (w name))
  | underline : IsElement (valued "u" "single")
  | script (script : Script) : IsElement (valued "vertAlign" script.code)

lemma isElement_of_mem : ∀ e ∈ format.elements, IsElement e := by
  have hswitched (name : String) (h : name ∈ switches) (on : Bool) :
      ∀ e ∈ switched name on, IsElement e := by
    cases on with
    | false => exact List.forall_mem_nil _
    | true => exact List.forall_mem_singleton.2 (.on name h)
  intro e he
  simp only [elements, List.mem_append] at he
  rcases he with (((((he | he) | he) | he) | he) | he) | he
  · split at he
    · exact List.mem_singleton.1 he ▸ .face _
    · cases he
  · exact hswitched "b" (by decide) _ e he
  · exact hswitched "i" (by decide) _ e he
  · exact hswitched "smallCaps" (by decide) _ e he
  · exact hswitched "strike" (by decide) _ e he
  · split at he
    · exact List.mem_singleton.1 he ▸ .underline
    · cases he
  · split at he
    · exact List.mem_singleton.1 he ▸ .script _
    · cases he

/-- A run in the format. -/
def runElement (format : RunFormat) (parts : List Element) : Element :=
  .branch (w "r") (.branch (w "rPr") format.elements :: parts)

lemma isElement_of_property? {name : String} {e : Element}
    (h : Font.property? (format.runElement parts) name = some e) :
    IsElement e ∧ e.name = w name := by
  have hfirst : (format.runElement parts).first? (w "rPr") =
      some (.branch (w "rPr") format.elements) := by
    rw [runElement, first?_branch]
    rfl
  rw [Font.property?, hfirst, Option.bind_some, first?_branch] at h
  exact ⟨isElement_of_mem e (List.mem_of_find?_eq_some h), by simpa using List.find?_some h⟩

/-- A property is on when it is there: it has no value that could say otherwise. -/
lemma exists_switchOn? {name : String} (hname : name ∈ switches) :
    ∃ on, Font.switchOn? (format.runElement parts) name = some on := by
  have hother {other : String} (h : other ∉ switches) : w other ≠ w name :=
    fun heq => h (w_inj.1 heq ▸ hname)
  rw [Font.switchOn?]
  split
  · exact ⟨false, rfl⟩
  · next e he =>
    obtain ⟨helement, hown⟩ := isElement_of_property? he
    cases helement with
    | on => exact ⟨true, rfl⟩
    | face => exact absurd hown (hother (by decide))
    | underline => exact absurd hown (hother (by decide))
    | script => exact absurd hown (hother (by decide))

lemma exists_underlined? : ∃ on, Font.underlined? (format.runElement parts) = some on := by
  rw [Font.underlined?]
  cases hproperty : Font.property? (format.runElement parts) "u" with
  | none => exact ⟨false, rfl⟩
  | some e =>
    obtain ⟨helement, hown⟩ := isElement_of_property? hproperty
    cases helement with
    | underline => exact ⟨true, by decide +kernel⟩
    | face => exact absurd (w_inj.1 hown) (by decide)
    | on name h => exact absurd (w_inj.1 hown ▸ h) (by decide)
    | script => exact absurd (w_inj.1 hown) (by decide)

lemma exists_script? : ∃ script, Font.script? (format.runElement parts) = some script := by
  rw [Font.script?]
  cases hproperty : Font.property? (format.runElement parts) "vertAlign" with
  | none => exact ⟨none, rfl⟩
  | some e =>
    obtain ⟨helement, hown⟩ := isElement_of_property? hproperty
    cases helement with
    | script script =>
      have hvalue : Font.value? (valued "vertAlign" script.code) = some script.code := by
        simp [Font.value?, valued, Element.leaf, Element.attribute?]
      dsimp only
      rw [hvalue]
      exact ⟨_, rfl⟩
    | face => exact absurd (w_inj.1 hown) (by decide)
    | on name h => exact absurd (w_inj.1 hown ▸ h) (by decide)
    | underline => exact absurd (w_inj.1 hown) (by decide)

/-- No format has a size or a color. -/
lemma property?_eq_none {name : String} (h : name ∉ ["rFonts", "u", "vertAlign"] ++ switches) :
    Font.property? (format.runElement parts) name = none := by
  cases hproperty : Font.property? (format.runElement parts) name with
  | none => rfl
  | some e =>
    obtain ⟨helement, hown⟩ := isElement_of_property? hproperty
    refine absurd ?_ h
    cases helement with
    | face => exact w_inj.1 hown ▸ by decide
    | on name' hname => exact w_inj.1 hown ▸ List.mem_append_right _ hname
    | underline => exact w_inj.1 hown ▸ by decide
    | script => exact w_inj.1 hown ▸ by decide

lemma exists_isOwn? : ∃ own, Font.isOwn? (format.runElement parts) = some own := by
  have hsize : Font.hasSize? (format.runElement parts) = some false := by
    rw [Font.hasSize?, property?_eq_none (by decide)]
  have hcolor : Font.hasColor? (format.runElement parts) = some false := by
    rw [Font.hasColor?, property?_eq_none (by decide)]
  rw [Font.isOwn?, hsize, hcolor]
  cases Font.hasFace (format.runElement parts) with
  | true => exact ⟨true, rfl⟩
  | false => exact ⟨false, rfl⟩

lemma exists_styled? (text : String) :
    ∃ node, Font.styled? (format.runElement parts) text = some node := by
  obtain ⟨script, hscript⟩ := @exists_script? format parts
  obtain ⟨smallCaps, hcapitals⟩ := @exists_switchOn? format parts "smallCaps" (by decide)
  obtain ⟨bold, hbold⟩ := @exists_switchOn? format parts "b" (by decide)
  obtain ⟨italic, hitalic⟩ := @exists_switchOn? format parts "i" (by decide)
  obtain ⟨underline, hunderline⟩ := @exists_underlined? format parts
  obtain ⟨strike, hstrike⟩ := @exists_switchOn? format parts "strike" (by decide)
  rw [Font.styled?, hscript, hcapitals, Font.style?, hbold, hitalic, hunderline, hstrike]
  exact ⟨_, rfl⟩

end RunFormat

variable {source : Source}

namespace Inline

lemma succeeds_picture (run blip : Element) : Succeeds (picture source run blip) := by
  unfold picture
  dsimp only
  split
  · exact (succeeds_note _).bind fun _ => succeeds_pure _
  · split
    · exact (succeeds_embed _).bind fun _ => succeeds_pure _
    · exact (succeeds_note _).bind fun _ => succeeds_pure _

lemma exists_lineNodes {run : Element} (h : ∀ text, ∃ node, Font.styled? run text = some node)
    (lines : List (List Char)) : ∃ nodes, lineNodes run lines = some nodes := by
  induction lines with
  | nil => exact ⟨[], rfl⟩
  | cons line lines ih =>
    obtain ⟨node, hnode⟩ := h (String.ofList line)
    obtain ⟨others, hothers⟩ := ih
    rw [lineNodes, hnode, hothers]
    cases line.isEmpty <;> exact ⟨_, rfl⟩

lemma succeeds_run (index : Index) (composed : Run) :
    Succeeds (run source (composed.element index)) := by
  have helement : composed.element index =
      composed.format.runElement (composed.parts.map (·.element index)) := rfl
  obtain ⟨own, hown⟩ := @RunFormat.exists_isOwn? composed.format
    (composed.parts.map (·.element index))
  have hlines := exists_lineNodes (@RunFormat.exists_styled? composed.format
    (composed.parts.map (·.element index)))
  rw [← helement] at hown hlines
  obtain ⟨lines, hlines⟩ :=
    hlines (Text.splitAt '\n' (runText (composed.element index)).toList)
  unfold run
  dsimp only
  rw [hown, hlines]
  refine (succeeds_mapM fun blip _ => succeeds_picture _ blip).bind fun pictures => ?_
  simp only [need_some, pure_bind]
  cases own with
  | true => exact (succeeds_note _).bind fun _ => succeeds_pure _
  | false => exact succeeds_pure _

lemma succeeds_url (element : Element) : Succeeds (url source element) := by
  unfold url
  split
  · exact succeeds_pure _
  · split
    · exact succeeds_pure _
    · split
      · exact (succeeds_note _).bind fun _ => succeeds_pure _
      · exact succeeds_pure _

lemma succeeds_item (index : Index) (composed : RunItem) :
    Succeeds (item source (composed.element index)) := by
  cases composed with
  | run single =>
    have hname : ((RunItem.run single).element index).name = w "r" := rfl
    rw [item, if_pos hname]
    exact succeeds_run index single
  | link url several =>
    have hname : ((RunItem.link url several).element index).name = w "hyperlink" := rfl
    rw [item, if_neg (by simp [hname]), if_pos hname]
    have hruns : ∀ e ∈ ((RunItem.link url several).element index).named (w "r"),
        Succeeds (run source e) := by
      intro e he
      have hchild := List.mem_of_mem_filter he
      simp only [RunItem.element, Element.children, List.filterMap_map] at hchild
      obtain ⟨single, -, heq⟩ := List.mem_filterMap.1 hchild
      obtain rfl := Option.some.inj heq
      exact succeeds_run index single
    exact ((succeeds_mapM hruns).bind fun _ => succeeds_pure _).bind fun _ =>
      (succeeds_url _).bind fun _ => succeeds_pure _

end Inline

lemma element_paragraph (index : Index) (composed : Paragraph) : composed.element index =
    paragraphElement composed.style composed.alignment (composed.items.map (·.element index)) := by
  obtain ⟨style, alignment, items⟩ := composed
  cases style <;> cases alignment <;> rfl

lemma Inline.succeeds_ofParagraph (index : Index) (composed : Paragraph) :
    Succeeds (ofParagraph source (composed.element index)) := by
  have hitems : ∀ e ∈ (composed.element index).children, Succeeds (item source e) := by
    rw [element_paragraph, paragraphElement, Element.children_branch]
    refine List.forall_mem_cons.2 ⟨?_, fun e he => ?_⟩
    · rw [item_propertiesElement]
      exact succeeds_pure _
    · obtain ⟨composed, -, rfl⟩ := List.mem_map.1 he
      exact succeeds_item index composed
  exact (succeeds_mapM hitems).bind fun _ => succeeds_pure _

lemma exists_styleName? (hstyles : source.styles = some .standard) (style : Option String)
    (alignment : Option Alignment) (items : List Element) :
    ∃ name, Body.styleName? source (paragraphElement style alignment items) = some name := by
  rw [Body.styleName?, hstyles, property?_pStyle]
  cases style with
  | none => exact ⟨_, rfl⟩
  | some name =>
    have hvalue : (valued "pStyle" (Style.idOfName name)).attribute? (w "val") =
        some (Style.idOfName name) := by
      simp [valued, Element.leaf, Element.attribute?]
    simp only [Option.map_some, Option.bind_eq_bind, Option.bind_some, hvalue]
    exact ⟨_, rfl⟩

lemma exists_plain? (styleName : String) (style : Option String) (alignment : Option Alignment)
    (items : List Element) (inlines : List Node) :
    ∃ entry, Body.plain? styleName (paragraphElement style alignment items) inlines =
      some entry := by
  rw [Body.plain?, alignment?_paragraphElement]
  split
  · exact ⟨_, rfl⟩
  · split
    · exact ⟨_, rfl⟩
    · exact ⟨_, rfl⟩

theorem Body.succeeds_paragraph (hstyles : source.styles = some .standard) (index : Index)
    (composed : Paragraph) : Succeeds (paragraph source (composed.element index)) := by
  unfold paragraph
  refine (Inline.succeeds_ofParagraph index composed).bind fun inlines => ?_
  rw [element_paragraph]
  generalize composed.items.map (·.element index) = items
  refine (succeeds_need (exists_styleName? hstyles _ _ items)).bind fun name => ?_
  dsimp only
  split
  · split
    · exact (succeeds_note _).bind fun _ => succeeds_pure _
    · exact succeeds_pure _
  · exact (succeeds_need (exists_plain? name _ _ items inlines)).bind fun _ => succeeds_pure _

lemma cellElements_eq_map (index : Index) (cells : List (List Block)) :
    cellElements index cells =
      cells.map fun cell => .branch (w "tc") (blockElements index cell) := by
  induction cells with
  | nil => rfl
  | cons cell cells ih => rw [cellElements, ih, List.map_cons]

lemma rowElements_eq_map (index : Index) (rows : List (List (List Block))) :
    rowElements index rows = rows.map fun row => .branch (w "tr") (cellElements index row) := by
  induction rows with
  | nil => rfl
  | cons row rows ih => rw [rowElements, ih, List.map_cons]

/-- A row whose cells all have a width of their own. -/
def GridRow.IsSimple (row : GridRow) : Prop :=
  ∀ cell ∈ row.cells, cell.continues = false ∧ cell.span = some 1

/-- The cells of a simple row are placed where they stand. -/
lemma GridRow.IsSimple.exists_placedCells? {row : GridRow} (h : row.IsSimple)
    (above : List GridRow) : ∃ placed, row.placedCells? above = some placed ∧
      ∀ cell ∈ placed, ∃ own ∈ row.cells, cell.element = own.element := by
  let part (i : Nat) : List PlacedCell :=
    row.cells[i]?.toList.map fun cell => ⟨⟨0, i⟩, cell.element⟩
  have hplaced : ∀ i ∈ List.range row.cells.length, row.placed? 0 above i = pure (part i) := by
    intro i hi
    have hget := List.getElem?_eq_getElem (List.mem_range.1 hi)
    obtain ⟨hown, hspan⟩ := h _ (List.getElem_mem (List.mem_range.1 hi))
    simp only [part, hget]
    cases above <;> rw [placed?, hget, Option.bind_eq_bind, Option.bind_some, hown, hspan] <;> rfl
  refine ⟨_, by rw [placedCells?, mapM_eq_pure hplaced]; rfl, fun cell hcell => ?_⟩
  obtain ⟨own, hown, hcell⟩ := List.mem_flatten.1 hcell
  obtain ⟨i, -, rfl⟩ := List.mem_map.1 hown
  obtain ⟨found, hfound, rfl⟩ := List.mem_map.1 hcell
  exact ⟨found, List.mem_of_getElem? (Option.mem_toList.1 hfound), rfl⟩

lemma isSimple_row (index : Index) (row : List (List Block)) :
    (GridRow.ofElement (.branch (w "tr") (cellElements index row))).IsSimple := by
  intro cell hcell
  obtain ⟨e, he, rfl⟩ := List.mem_map.1 hcell
  rw [named_branch, cellElements_eq_map] at he
  obtain ⟨blocks, -, rfl⟩ := List.mem_map.1 (List.mem_of_mem_filter he)
  have hproperties : (Element.branch (w "tc") (blockElements index blocks)).first? (w "tcPr") =
      none := by
    rw [first?_branch, blockElements_eq_map, List.find?_eq_none]
    intro e he
    obtain ⟨block, -, rfl⟩ := List.mem_map.1 he
    cases block <;> simp [Block.element, Paragraph.element]
  rw [GridCell.ofElement, hproperties]
  exact ⟨rfl, rfl⟩

namespace Body

lemma succeeds_cell (header : Bool) (index : Index) (blocks : List Block) :
    Succeeds (cell source header (.branch (w "tc") (blockElements index blocks))) := by
  have hparagraphs : ∀ e ∈ (Element.branch (w "tc") (blockElements index blocks)).named (w "p"),
      Succeeds (Inline.ofParagraph source e) := by
    rw [named_branch, blockElements_eq_map]
    intro e he
    obtain ⟨hmem, hname⟩ := List.mem_filter.1 he
    obtain ⟨block, -, rfl⟩ := List.mem_map.1 hmem
    cases block with
    | paragraph composed => exact Inline.succeeds_ofParagraph index composed
    | table => simp [Block.element] at hname
  exact (succeeds_mapM hparagraphs).bind fun _ => succeeds_pure _

lemma succeeds_cells {header : Bool} {placed : List PlacedCell}
    (h : ∀ c ∈ placed, Succeeds (cell source header c.element)) (seen : List GridPlace) :
    Succeeds (cells source header seen placed) := by
  induction placed generalizing seen with
  | nil => exact succeeds_pure []
  | cons c placed ih =>
    obtain ⟨hc, hplaced⟩ := List.forall_mem_cons.1 h
    rw [cells]
    split
    · exact (succeeds_note _).bind fun _ => ih hplaced _
    · exact hc.bind fun _ => (ih hplaced _).bind fun _ => succeeds_pure _

lemma succeeds_rows (index : Index) (rows : List (List (List Block))) (above : List GridRow) :
    Succeeds (Body.rows source above ((rowElements index rows).map .ofElement)) := by
  induction rows generalizing above with
  | nil => exact succeeds_pure []
  | cons row rows ih =>
    obtain ⟨placed, hplaced, hcells⟩ := (isSimple_row index row).exists_placedCells? above
    rw [rowElements, List.map_cons, Body.rows, hplaced, need_some, pure_bind]
    refine (succeeds_cells (fun c hc => ?_) _).bind fun _ => (ih _).bind fun _ => succeeds_pure _
    obtain ⟨own, hown, helement⟩ := hcells c hc
    obtain ⟨e, he, rfl⟩ := List.mem_map.1 hown
    rw [named_branch, cellElements_eq_map] at he
    obtain ⟨blocks, -, rfl⟩ := List.mem_map.1 (List.mem_of_mem_filter he)
    rw [helement]
    exact succeeds_cell _ index blocks

lemma succeeds_table (index : Index) (style : Option String) (rows : List (List (List Block))) :
    Succeeds (table source ((Block.table style rows).element index)) := by
  have hrows : ((Block.table style rows).element index).named (w "tr") = rowElements index rows := by
    have hall : (rowElements index rows).filter (·.name = w "tr") = rowElements index rows := by
      rw [rowElements_eq_map, List.filter_eq_self]
      simp
    cases style <;> rw [Block.element, named_branch, List.filter_cons_of_neg (by simp), hall]
  rw [table, hrows]
  exact (succeeds_rows index rows []).bind fun _ => succeeds_pure _

theorem succeeds_blocks (hstyles : source.styles = some .standard) (composition : Composition) :
    Succeeds (blocks source composition.body) := by
  have hentries : ∀ e ∈ composition.body.children, Succeeds (entries source e) := by
    rw [Composition.body, Element.children_branch, blockElements_eq_map]
    intro e he
    rcases List.mem_append.1 he with hmem | hmem
    · obtain ⟨block, -, rfl⟩ := List.mem_map.1 hmem
      cases block with
      | paragraph composed =>
        have hname : ((Block.paragraph composed).element composition.index).name = w "p" := rfl
        rw [entries, if_neg (by simp [hname]), if_pos hname]
        exact succeeds_paragraph hstyles _ composed
      | table style rows =>
        have hname : ((Block.table style rows).element composition.index).name = w "tbl" := rfl
        rw [entries, if_pos hname]
        exact (succeeds_table _ style rows).bind fun _ => succeeds_pure _
    · obtain rfl := List.mem_singleton.1 hmem
      rw [entries, if_neg (by simp [PageLayout.element]), if_neg (by simp [PageLayout.element])]
      exact succeeds_pure _
  exact (succeeds_mapM hentries).bind fun _ => succeeds_pure _

end Body

lemma mem_of_mem_ofKind {relations : Relations} {kind : String} {relation : Relation}
    (h : relation ∈ relations.ofKind kind) : relation ∈ relations ∧ relation.kind = kind := by
  obtain ⟨hmem, hkind⟩ := List.mem_filter.1 h
  have hset := OrderedMap.mem_of_mem_values_ofList hmem
  rw [List.map_map] at hset
  obtain ⟨own, hown, rfl⟩ := List.mem_map.1 hset
  exact ⟨hown, of_decide_eq_true hkind⟩

/-- The kinds of the relations of the text. -/
lemma kind_of_mem_relations {composition : Composition} {relation : Relation}
    (h : relation ∈ composition.main.relations) :
    relation.kind ∈ [documentRelation "hyperlink", documentRelation "image"] ∨
      composition.footnotes ≠ [] ∧ relation =
        ⟨"rIdFootnotes", documentRelation "footnotes", .part Composition.footnotesName⟩ := by
  simp only [Composition.main, List.mem_append] at h
  rcases h with (h | h) | h
  · obtain ⟨i, hi, rfl⟩ := List.mem_mapIdx.1 h
    simp
  · obtain ⟨i, hi, rfl⟩ := List.mem_mapIdx.1 h
    simp
  · rw [Composition.footnoteRelations] at h
    split at h
    · cases h
    · next hfilled => exact .inr ⟨by simpa using hfilled, List.mem_singleton.1 h⟩

variable (composition : Composition)

lemma styles?_package : composition.package.styles? = some .standard := by
  have hnone : composition.package.main.relations.ofKind (documentRelation "styles") = [] := by
    refine List.eq_nil_iff_forall_not_mem.2 fun relation hmem => ?_
    obtain ⟨hrelation, hkind⟩ := mem_of_mem_ofKind hmem
    rcases kind_of_mem_relations hrelation with hother | ⟨-, rfl⟩
    · rw [hkind] at hother
      exact absurd hother (by simp [documentRelation])
    · exact absurd hkind (by simp [documentRelation])
  rw [Package.styles?, Package.only?, hnone]
  rfl

variable {composition} in
lemma part?_footnotes (h : composition.footnotes ≠ []) :
    composition.package.part? Composition.footnotesName =
      some ⟨Composition.footnotesName, wordType "footnotes",
        .markup (footnotesElement composition.footnotes), []⟩ := by
  have hpart : composition.footnoteParts = [⟨Composition.footnotesName, wordType "footnotes",
      .markup (footnotesElement composition.footnotes), []⟩] := if_neg (by simpa using h)
  have hparts : composition.package.parts = composition.main :: composition.corePart ::
      (composition.footnoteParts ++ composition.pictureParts) := rfl
  have hmain : Composition.documentName ≠ Composition.footnotesName := by decide
  have hcore : Composition.coreName ≠ Composition.footnotesName := by decide
  rw [Package.part?, hparts, hpart, List.find?_cons_of_neg (by simp [Composition.main, hmain]),
    List.find?_cons_of_neg (by simp [Composition.corePart, hcore])]
  exact List.find?_cons_of_pos (by simp)

lemma exists_root? : ∃ root, Footnote.root? composition.package = some root := by
  rw [Footnote.root?]
  split
  · exact ⟨none, rfl⟩
  · next name names hnames =>
    have hmem : name ∈ (composition.package.main.relations.ofKind
        (documentRelation "footnotes")).filterMap Relation.part? := by
      rw [hnames]
      exact List.mem_cons_self
    obtain ⟨relation, hrelation, hname⟩ := List.mem_filterMap.1 hmem
    obtain ⟨hrelation, hkind⟩ := mem_of_mem_ofKind hrelation
    rcases kind_of_mem_relations hrelation with hother | ⟨hfilled, rfl⟩
    · rw [hkind] at hother
      exact absurd hother (by simp [documentRelation])
    · obtain rfl := Option.some.inj hname
      rw [part?_footnotes hfilled]
      exact ⟨_, rfl⟩

lemma exists_footnotes : ∃ footnotes, Footnote.ofPackage? composition.package = some footnotes := by
  obtain ⟨root, hroot⟩ := exists_root? composition
  rw [Footnote.ofPackage?, hroot]
  exact ⟨_, rfl⟩

lemma succeeds_passOver :
    Succeeds (passOver composition.package [composition.layout.element]) := by
  unfold passOver
  rw [showsAny?_layout]
  dsimp only
  split
  · exact (succeeds_note _).bind fun _ => succeeds_pure _
  · exact succeeds_pure _

lemma succeeds_blocks (footnotes : List Footnote) (embeds : Bool) :
    Succeeds (blocks composition.package (.branch (w "document") [composition.body]) footnotes
      embeds) := by
  have hbody : (Element.branch (w "document") [composition.body]).first? (w "body") =
      some composition.body := first?_branch _ _ _
  have hstyles : (composition.package.source footnotes embeds).styles = some .standard :=
    styles?_package composition
  simp only [blocks, sections_body, hbody, need_some, pure_bind]
  exact (succeeds_forM_note _).bind fun _ => (succeeds_passOver composition).bind fun _ =>
    (Body.succeeds_blocks hstyles composition).bind fun _ => succeeds_pure _

/-- A composition on standard pages is read, with the core properties that it has. -/
theorem exists_read_package (h : composition.layout = .standard) (options : ReadOptions) :
    ∃ result, read composition.package options = .ok result ∧
      result.value.metadata = (CoreProperties.ofElement composition.core.toElement).toBag := by
  obtain ⟨footnotes, hfootnotes⟩ := exists_footnotes composition
  obtain ⟨⟨found, findings⟩, hfound⟩ := succeeds_blocks composition footnotes options.embeds .none
  obtain ⟨layout, hlayout⟩ := exists_layout
  have hroot : composition.package.main.root? =
      some (.branch (w "document") [composition.body]) := rfl
  have hdocument : document? composition.package options = some
      ⟨⟨.document found, (CoreProperties.ofElement composition.core.toElement).toBag,
        Reading.sourceInfo options formatName layout, findings.resources⟩,
        Notice.settle findings.notices⟩ := by
    simp only [document?, hroot, hfootnotes, StateT.run, hfound, coreProperties?_package,
      sections_body, h, hlayout, Option.bind_eq_bind, Option.bind_some]
  exact ⟨_, by rw [read, hdocument], rfl⟩

end Interchange.Word
