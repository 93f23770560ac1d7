import Interchange.Proofs.Word.Integrity

/-!
# Blocks and lists of a read body

Each paragraph and table of a body comes to an entry, in the order of the body, and the blocks of
the document are these entries, put together.
-/
namespace Interchange

namespace Node

/-- The items of a list, or the node itself if it is none. -/
def listed (node : Node) : List Node := if node.kind = .list then node.children else [node]

lemma listed_of_kind_ne {node : Node} (h : node.kind ≠ .list) : node.listed = [node] := if_neg h

lemma listed_list (ordered : Bool) (items : List Node) : (list ordered items).listed = items :=
  if_pos rfl

end Node

namespace Word

open Finding Node
open Markup (Element)

namespace Entry

/-- What an entry holds by itself. -/
def nodes : Entry → List Node
  | .item _ node => [node]
  | .block node => [node]
  | .nothing => []
  | .pageBreak => [.pageBreak]

/-- An entry whose block is no list. -/
def IsFlat (entry : Entry) : Prop := ∀ node, entry = .block node → node.kind ≠ .list

lemma PutTogether.flatMap_listed {entries : List Entry} {blocks : List Node}
    (h : PutTogether entries blocks) (hflat : ∀ entry ∈ entries, entry.IsFlat) :
    blocks.flatMap listed = entries.flatMap nodes := by
  cases h with
  | items ordered h =>
    rw [List.flatMap_singleton, listed_list, List.flatMap_map]
    exact (List.flatMap_singleton' _).symm
  | block node =>
    have hkind := hflat _ (List.mem_singleton_self _) node rfl
    rw [List.flatMap_singleton, listed_of_kind_ne hkind]
    rfl
  | nothing => rfl
  | pageBreak => rfl

/-- With their lists taken apart, the blocks are the nodes of the entries. -/
theorem Grouped.flatMap_listed {entries : List Entry} {blocks : List Node}
    (h : Grouped entries blocks) (hflat : ∀ entry ∈ entries, entry.IsFlat) :
    blocks.flatMap listed = entries.flatMap nodes := by
  refine h.taken rfl (fun _ _ => List.flatMap_append) fun run hrun part hpart => ?_
  refine hpart.flatMap_listed fun entry hentry => hflat entry ?_
  rw [← List.flatten_splitBy joins entries]
  exact List.mem_flatten_of_mem hrun hentry

end Entry

variable {source : Source}

namespace Body

/-- The end of a page behind a paragraph that holds one. -/
def pageEnd (element : Element) : List Entry := if endsPage element then [.pageBreak] else []

/-- What stands directly in a body comes to an entry for each paragraph and each table, with the end
of a page behind a paragraph that holds one. A paragraph without inline content, that is neither an
item nor a heading, comes to nothing. -/
inductive ComesTo (source : Source) (element : Element) : List Entry → Prop where
  | table {node : Node} (hname : element.name = w "tbl") (hkind : node.kind = .table)
    (hnode : Results (table source element) node) : ComesTo source element [.block node]
  | item {inlines : List Node} {styleName : String} {ordered : Bool} (hname : element.name = w "p")
    (hinlines : Results (Inline.ofParagraph source element) inlines)
    (hstyle : styleName? source element = some styleName)
    (hlist : listKind? styleName element = some ordered) :
    ComesTo source element (.item ordered (.listItem [.paragraph inlines]) :: pageEnd element)
  | heading {inlines : List Node} {styleName : String} {level : ℕ} (hname : element.name = w "p")
    (hinlines : Results (Inline.ofParagraph source element) inlines)
    (hstyle : styleName? source element = some styleName)
    (hlist : listKind? styleName element = none) (hlevel : headingLevel? styleName = some level) :
    ComesTo source element (.block (.heading level inlines) :: pageEnd element)
  | paragraph {inlines : List Node} {styleName : String} {node : Node}
    (hname : element.name = w "p")
    (hinlines : Results (Inline.ofParagraph source element) inlines)
    (hstyle : styleName? source element = some styleName)
    (hlist : listKind? styleName element = none) (hlevel : headingLevel? styleName = none)
    (hfilled : inlines ≠ []) (hkind : node.kind = .paragraph) (hchildren : node.children = inlines) :
    ComesTo source element (.block node :: pageEnd element)
  | empty {styleName : String} (hname : element.name = w "p")
    (hinlines : Results (Inline.ofParagraph source element) [])
    (hstyle : styleName? source element = some styleName)
    (hlist : listKind? styleName element = none) (hlevel : headingLevel? styleName = none) :
    ComesTo source element (.nothing :: pageEnd element)
  | other (htable : element.name ≠ w "tbl") (hparagraph : element.name ≠ w "p") :
    ComesTo source element []

lemma isFlat_pageEnd (element : Element) : ∀ entry ∈ pageEnd element, entry.IsFlat := by
  intro entry hentry node hblock
  rw [pageEnd] at hentry
  split at hentry
  · rw [List.mem_singleton.1 hentry] at hblock
    cases hblock
  · cases hentry

lemma ComesTo.isFlat {element : Element} {entries : List Entry}
    (h : ComesTo source element entries) : ∀ entry ∈ entries, entry.IsFlat := by
  have hblock {node : Node} (hkind : node.kind ≠ .list) : (Entry.block node).IsFlat := by
    rintro _ ⟨⟩
    exact hkind
  cases h with
  | table _ hkind =>
    exact List.forall_mem_singleton.2 (hblock (by rw [hkind]; decide))
  | item =>
    exact List.forall_mem_cons.2 ⟨fun _ h => (by cases h), isFlat_pageEnd element⟩
  | heading =>
    have hkind : Kind.heading ≠ .list := by decide
    exact List.forall_mem_cons.2 ⟨hblock hkind, isFlat_pageEnd element⟩
  | paragraph _ _ _ _ _ _ hkind =>
    exact List.forall_mem_cons.2 ⟨hblock (by rw [hkind]; decide), isFlat_pageEnd element⟩
  | empty =>
    exact List.forall_mem_cons.2 ⟨fun _ h => (by cases h), isFlat_pageEnd element⟩
  | other => exact List.forall_mem_nil _

lemma isFlat_of_comesTo {elements : List Element} {found : List (List Entry)}
    (h : List.Forall₂ (ComesTo source) elements found) :
    ∀ entry ∈ found.flatten, entry.IsFlat := by
  induction h with
  | nil => exact List.forall_mem_nil _
  | cons hcomes _ ih => exact List.forall_mem_append.2 ⟨hcomes.isFlat, ih⟩

lemma comesTo_of_plain? {element : Element} {styleName : String} {inlines : List Node}
    {entry : Entry} (hname : element.name = w "p")
    (hinlines : Results (Inline.ofParagraph source element) inlines)
    (hstyle : styleName? source element = some styleName)
    (hlist : listKind? styleName element = none)
    (h : plain? styleName element inlines = some entry) :
    ComesTo source element (entry :: pageEnd element) := by
  rw [plain?] at h
  split at h
  · next level hlevel =>
    rw [← Option.some.inj h]
    exact .heading hname hinlines hstyle hlist hlevel
  · next hlevel =>
    split at h
    · next hempty =>
      rw [List.isEmpty_iff.1 hempty] at hinlines
      rw [← Option.some.inj h]
      exact .empty hname hinlines hstyle hlist hlevel
    · next hfilled =>
      rw [List.isEmpty_iff] at hfilled
      obtain ⟨alignment, -, rfl⟩ := Option.map_eq_some_iff.1 h
      cases alignment with
      | none => exact .paragraph hname hinlines hstyle hlist hlevel hfilled rfl rfl
      | some alignment => exact .paragraph hname hinlines hstyle hlist hlevel hfilled rfl rfl

lemma gives_paragraph_comesTo {element : Element} (hname : element.name = w "p") :
    Gives (paragraph source element) (ComesTo source element) := by
  have hlast {entry : Entry} (hentry : ComesTo source element (entry :: pageEnd element)) :
      Gives (pure (if endsPage element then [entry, .pageBreak] else [entry]) : Finding _)
        (ComesTo source element) := by
    refine gives_pure ?_
    rw [pageEnd] at hentry
    split <;> simp_all
  unfold paragraph
  refine (Inline.gives_ofParagraph element).results.bind fun inlines hinlines =>
    (gives_need fun _ h => h).bind fun styleName hstyle => ?_
  dsimp only
  split
  · next ordered hlist =>
    have hitem := hlast (.item hname hinlines.1 hstyle hlist)
    split
    · exact (gives_note _).bind fun _ _ => hitem
    · exact hitem
  · next hlist =>
    exact (gives_need fun _ h => comesTo_of_plain? hname hinlines.1 hstyle hlist h).bind
      fun _ hentry => hlast hentry

theorem gives_entries_comesTo (element : Element) :
    Gives (entries source element) (ComesTo source element) := by
  rw [entries]
  split
  · next hname =>
    refine (gives_table element).results.bind fun node hnode => gives_pure ?_
    obtain ⟨before, after, hresult⟩ := hnode.1
    obtain ⟨rows, middle, -, hlast⟩ := bind_eq_some hresult
    have hkind : node.kind = .table := by
      rw [← (Prod.mk.inj (Option.some.inj hlast)).1]
      rfl
    exact .table hname hkind hnode.1
  · next htable =>
    split
    · next hname => exact gives_paragraph_comesTo hname
    · next hparagraph => exact gives_pure (.other htable hparagraph)

/-- The blocks of a body are the entries of its paragraphs and tables, put together. -/
theorem gives_blocks_comesTo (body : Element) : Gives (blocks source body) fun nodes =>
    ∃ found, List.Forall₂ (ComesTo source) body.children found ∧
      Entry.Grouped found.flatten nodes :=
  (gives_mapM gives_entries_comesTo _).bind fun found hfound =>
    gives_pure ⟨found, hfound, Entry.grouped_blocks _⟩

end Body

variable {package : Package} {options : ReadOptions}

/-- A package that is read has the entries of its body as blocks, in the order of the body and with
the items of lists put together, and the footnotes behind them. -/
theorem read_groups_entries {outcome : Outcome Document} (h : read package options = .ok outcome) :
    ∃ root body footnotes found blocks,
      package.main.root? = some root ∧ root.first? (w "body") = some body ∧
      Footnote.ofPackage? package = some footnotes ∧
      outcome.value.content = .document (blocks ++ Footnote.definitions footnotes) ∧
      List.Forall₂ (Body.ComesTo (package.source footnotes options.embeds)) body.children found ∧
      Entry.Grouped found.flatten blocks ∧
      outcome.value.content.children.flatMap listed =
        found.flatten.flatMap Entry.nodes ++ Footnote.definitions footnotes := by
  obtain ⟨root, footnotes, nodes, findings, hroot, hfootnotes, hblocks, hcontent, -, -⟩ :=
    parts_of_read h
  obtain ⟨body, blocks, before, hbody, hresult, rfl⟩ := body_of_blocks hblocks
  obtain ⟨⟨found, hfound, hgrouped⟩, -⟩ := Body.gives_blocks_comesTo body _ _ _ hresult
  have hdefinitions : (Footnote.definitions footnotes).flatMap listed =
      Footnote.definitions footnotes := by
    refine (List.flatMap_congr fun node hnode => listed_of_kind_ne ?_).trans
      (List.flatMap_singleton' _)
    rw [Footnote.kind_of_mem_definitions node hnode]
    decide
  refine ⟨root, body, footnotes, found, blocks, hroot, hbody, hfootnotes, hcontent, hfound,
    hgrouped, ?_⟩
  have hchildren : outcome.value.content.children = blocks ++ Footnote.definitions footnotes := by
    rw [hcontent]
    rfl
  rw [hchildren, List.flatMap_append, hgrouped.flatMap_listed (Body.isFlat_of_comesTo hfound),
    hdefinitions]

/-- Two bulleted items with a bookmark between them and the end of a page in the second, an item of
another page, numbered items on both sides of an empty paragraph, a table and a title. -/
theorem read_groups_entries_agenda :
    let paragraph (style : String) (pieces : List Element) : Element := .branch (w "p")
      [.branch (w "pPr") [.leaf (w "pStyle") [⟨w "val", style⟩]], .branch (w "r") pieces]
    let body : Element := .branch (w "body") [
      paragraph "ListBullet" [.ofText (w "t") "a"], .leaf (w "bookmarkStart"),
      paragraph "ListBullet" [.ofText (w "t") "b", .leaf (w "br") [⟨w "type", "page"⟩]],
      paragraph "ListBullet" [.ofText (w "t") "c"], paragraph "ListNumber" [.ofText (w "t") "d"],
      paragraph "Normal" [], paragraph "ListNumber" [], .leaf (w "tbl"),
      paragraph "Title" [.ofText (w "t") "e"]]
    ∃ outcome, read (ofBody body) .standard = .ok outcome ∧
      outcome.value.content.children.map (fun block => (block.kind, block.children.length)) =
        [(.list, 2), (.horizontalRule, 0), (.list, 1), (.list, 1), (.list, 1), (.table, 0),
          (.heading, 1)] ∧
      ∃ footnotes found blocks, Footnote.ofPackage? (ofBody body) = some footnotes ∧
        outcome.value.content = .document (blocks ++ Footnote.definitions footnotes) ∧
        List.Forall₂ (Body.ComesTo ((ofBody body).source footnotes true)) body.children found ∧
        Entry.Grouped found.flatten blocks ∧
        outcome.value.content.children.flatMap listed =
          found.flatten.flatMap Entry.nodes ++ Footnote.definitions footnotes := by
  intro paragraph body
  obtain ⟨outcome, hread, hkinds⟩ : ∃ outcome, read (ofBody body) .standard = .ok outcome ∧
      outcome.value.content.children.map (fun block => (block.kind, block.children.length)) =
        [(.list, 2), (.horizontalRule, 0), (.list, 1), (.list, 1), (.list, 1), (.table, 0),
          (.heading, 1)] := exists_outcome (by decide +kernel)
  obtain ⟨root, body', footnotes, found, blocks, hroot, hbody, hrest⟩ := read_groups_entries hread
  obtain rfl : .branch (w "document") [body] = root := Option.some.inj hroot
  obtain rfl : body = body' := Option.some.inj hbody
  exact ⟨outcome, hread, hkinds, footnotes, found, blocks, hrest⟩

end Word

end Interchange
