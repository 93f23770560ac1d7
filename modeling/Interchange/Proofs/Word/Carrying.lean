import Interchange.Proofs.Document.Contents
import Interchange.Proofs.Word.Blocks
import Interchange.Proofs.Word.Finding
import Interchange.Proofs.Word.Grid
import Interchange.Proofs.Word.Lines
import Interchange.Word.Reader

/-!
# Text that is carried over

Reading a paragraph, a table and a body loses none of their text: the letters of the runs that are
looked at are the letters of the nodes. In a row a cell is read once, however many columns it takes
up.
-/
namespace Interchange.Word

open Finding Node
open Markup (Element)
open Text (letters)

variable {source : Source}

namespace Inline

lemma gives_picture (run blip : Element) :
    Gives (picture source run blip) fun node => node.textContent = "" := by
  unfold picture
  dsimp only
  split
  · exact (gives_note _).bind fun _ _ => gives_pure (textContent_image _ _ _)
  · split
    · exact (gives_embed _).bind fun _ _ => gives_pure (textContent_image _ _ _)
    · exact (gives_note _).bind fun _ _ => gives_pure (textContent_image _ _ _)

lemma textContent_of_footnoteRef? {reference : Element} {node : Node}
    (h : footnoteRef? source reference = some node) : node.textContent = "" := by
  rw [footnoteRef?] at h
  obtain ⟨text, -, h⟩ := Option.bind_eq_some_iff.1 h
  obtain ⟨number, -, h⟩ := Option.bind_eq_some_iff.1 h
  obtain ⟨label, -, h⟩ := Option.bind_eq_some_iff.1 h
  rw [← Option.some.inj h]
  rfl

lemma textContent_of_wraps {content : String} {node : Node} (h : Font.Wraps content node) :
    node.textContent = content := by
  have hwrappers : ∀ kind ∈ Font.wrappers, bearsText kind = false := by decide
  induction h with
  | text => exact textContent_text content
  | wrapper hkind _ ih => rw [textContent_wrapped (hwrappers _ hkind), ih]

lemma ShowsLine.lettersOf_eq {line : List Char} {part : List Node} (h : ShowsLine line part) :
    lettersOf part = letters line := by
  cases h with
  | empty => rfl
  | text h => rw [lettersOf_singleton, textContent_of_wraps h, String.toList_ofList]

/-- The lines of a run are the lines of its text. -/
lemma lettersOf_lineNodes {run : Element} {lines : List (List Char)} {nodes : List Node}
    (h : lineNodes run lines = some nodes) : lettersOf nodes = letters lines.flatten := by
  have hbreak : lettersOf [.lineBreak] = letters [] := by decide
  rw [taken_of_lineNodes lettersOf_nil lettersOf_append (fun _ _ h => h.lettersOf_eq) h, hbreak,
    ← Text.map_intercalate Text.letters_nil Text.letters_append,
    Text.letters_intercalate Text.letters_nil]

lemma letters_flatten_splitAt (cs : List Char) :
    letters (Text.splitAt '\n' cs).flatten = letters cs := by
  have hbreak : letters ['\n'] = [] := by decide
  rw [← Text.letters_intercalate hbreak, Text.intercalate_splitAt]

theorem gives_run (element : Element) : Gives (run source element) fun nodes =>
    lettersOf nodes = letters (runText element).toList := by
  have hreferences : lettersOf
      ((element.named (w "footnoteReference")).filterMap (footnoteRef? source)) = [] := by
    refine lettersOf_eq_nil fun node hnode => ?_
    obtain ⟨reference, -, href⟩ := List.mem_filterMap.1 hnode
    exact textContent_of_footnoteRef? href
  have hlines {pictures : List Node} (hpictures : lettersOf pictures = []) :
      Gives (do
        let lines ← need (lineNodes element (Text.splitAt '\n' (runText element).toList))
        pure ((element.named (w "footnoteReference")).filterMap (footnoteRef? source) ++ pictures ++
          lines)) fun nodes => lettersOf nodes = letters (runText element).toList := by
    refine (gives_need fun lines hlines => lettersOf_lineNodes hlines).bind fun lines hlines =>
      gives_pure ?_
    rw [lettersOf_append, lettersOf_append, hreferences, hpictures, hlines, List.nil_append,
      List.nil_append, letters_flatten_splitAt]
  unfold run
  dsimp only
  refine (gives_mapM_forall (gives_picture element) _).bind fun pictures hpictures =>
    (gives_need fun _ _ => trivial).bind fun own _ => ?_
  have hsilent := lettersOf_eq_nil hpictures
  split
  · exact (gives_note _).bind fun _ _ => hlines hsilent
  · exact hlines hsilent

theorem gives_runs (elements : List Element) : Gives (runs source elements) fun nodes =>
    lettersOf nodes = letters (elements.flatMap fun e => (runText e).toList) :=
  (gives_mapM gives_run elements).bind fun _ h => gives_pure (lettersOf_flatten h)

lemma gives_url (element : Element) : Gives (url source element) fun _ => True := by
  unfold url
  split
  · exact gives_pure trivial
  · split
    · exact gives_pure trivial
    · split
      · exact (gives_note _).bind fun _ _ => gives_pure trivial
      · exact gives_pure trivial

theorem gives_link (element : Element) : Gives (link source element) fun nodes =>
    lettersOf nodes = letters ((element.named (w "r")).flatMap fun e => (runText e).toList) := by
  refine (gives_runs _).bind fun children hchildren => (gives_url element).bind fun url _ =>
    gives_pure ?_
  split
  · exact hchildren
  · rw [lettersOf_singleton, lettersOf_children rfl]
    exact hchildren

lemma gives_item (element : Element) : Gives (item source element) fun nodes =>
    lettersOf nodes = letters (itemText element) := by
  rw [item, itemText]
  split
  · exact gives_run element
  · split
    · exact gives_link element
    · exact gives_pure rfl

theorem gives_ofParagraph (paragraph : Element) : Gives (ofParagraph source paragraph) fun nodes =>
    lettersOf nodes = letters (Section.paragraphText paragraph).toList := by
  rw [toList_paragraphText]
  exact (gives_mapM gives_item _).bind fun _ h => gives_pure (lettersOf_flatten h)

end Inline

namespace Entry

/-- The letters of what an entry comes to. -/
def letters : Entry → List Char
  | .item _ node => Text.letters node.textContent.toList
  | .block node => Text.letters node.textContent.toList
  | .nothing => []
  | .pageBreak => []

lemma PutTogether.lettersOf_eq {run : List Entry} {part : List Node} (h : PutTogether run part) :
    lettersOf part = run.flatMap letters := by
  cases h with
  | @items ordered items =>
    rw [lettersOf_singleton, lettersOf_children rfl, lettersOf, textContents_eq_flatMap,
      Text.letters_flatMap, List.flatMap_map]
    rfl
  | block node => exact (lettersOf_singleton node).trans (List.append_nil _).symm
  | nothing => rfl
  | pageBreak => decide

/-- Entries are put together in their order. -/
theorem lettersOf_blocks (entries : List Entry) :
    lettersOf (blocks entries) = entries.flatMap letters :=
  (grouped_blocks entries).taken lettersOf_nil lettersOf_append fun _ _ _ h => h.lettersOf_eq

end Entry

namespace Body

lemma letters_of_plain? {styleName : String} {paragraph : Element} {inlines : List Node}
    {entry : Entry} (h : plain? styleName paragraph inlines = some entry) :
    entry.letters = lettersOf inlines := by
  rw [plain?] at h
  split at h
  · rw [← Option.some.inj h]
    exact lettersOf_children rfl
  · split at h
    · next hempty =>
      rw [← Option.some.inj h, List.isEmpty_iff.1 hempty]
      rfl
    · obtain ⟨alignment, -, rfl⟩ := Option.map_eq_some_iff.1 h
      cases alignment with
      | none => exact lettersOf_children rfl
      | some alignment => exact lettersOf_children rfl

theorem gives_paragraph (element : Element) : Gives (paragraph source element) fun entries =>
    entries.flatMap Entry.letters = letters (Section.paragraphText element).toList := by
  have hlast {entry : Entry} {text : List Char} (hentry : entry.letters = text) :
      Gives (pure (if endsPage element then [entry, .pageBreak] else [entry]) : Finding _)
        fun entries => entries.flatMap Entry.letters = text := by
    refine gives_pure ?_
    split <;> simpa [Entry.letters] using hentry
  unfold paragraph
  refine (Inline.gives_ofParagraph element).bind fun inlines hinlines =>
    (gives_need fun _ _ => trivial).bind fun styleName _ => ?_
  dsimp only
  split
  · next ordered _ =>
    have hitem : (Entry.item ordered (.listItem [.paragraph inlines])).letters =
        letters (Section.paragraphText element).toList := by
      rw [Entry.letters, lettersOf_children rfl, ← hinlines]
      have hparts : (Node.listItem [.paragraph inlines]).children = [.paragraph inlines] := rfl
      rw [hparts, lettersOf_singleton, lettersOf_children rfl]
      rfl
    split
    · exact (gives_note _).bind fun _ _ => hlast hitem
    · exact hlast hitem
  · exact (gives_need fun entry hentry => letters_of_plain? hentry).bind fun entry hentry =>
      hlast (hentry.trans hinlines)

lemma gives_cell (header : Bool) (element : Element) : Gives (cell source header element) fun node =>
    letters node.textContent.toList = letters (cellText element) := by
  refine (gives_mapM Inline.gives_ofParagraph _).bind fun paragraphs hparagraphs => gives_pure ?_
  rw [lettersOf_children rfl, cellText, ← lettersOf_flatten hparagraphs]
  have hparts : (Node.tableCell header ((paragraphs.filter (!·.isEmpty)).map .paragraph)).children =
      (paragraphs.filter (!·.isEmpty)).map .paragraph := rfl
  rw [hparts]
  clear hparagraphs hparts
  induction paragraphs with
  | nil => rfl
  | cons inlines paragraphs ih =>
    rw [List.flatten_cons, lettersOf_append, ← ih]
    by_cases hempty : inlines = []
    · subst hempty
      rfl
    · rw [List.filter_cons_of_pos (by simpa using hempty), List.map_cons, lettersOf_cons,
        lettersOf_children rfl]
      rfl

/-- Cells are read one by one, each the first time that its place comes up. -/
lemma gives_each_cell (header : Bool) (seen : List GridPlace) (placed : List PlacedCell) :
    Gives (cells source header seen placed) (List.Forall₂ (fun cell node =>
      letters node.textContent.toList = letters (cellText cell.element))
        (firstPlaced seen placed)) := by
  induction placed generalizing seen with
  | nil => exact gives_pure .nil
  | cons first others ih =>
    rw [cells, firstPlaced]
    split
    · exact (gives_note _).bind fun _ _ => ih seen
    · exact (gives_cell header _).bind fun node hnode => (ih _).bind fun nodes hnodes =>
        gives_pure (.cons hnode hnodes)

lemma gives_cells (header : Bool) (seen : List GridPlace) (placed : List PlacedCell) :
    Gives (cells source header seen placed) fun nodes =>
      lettersOf nodes = letters (placedText seen placed) := by
  rw [placedText_eq_flatMap]
  exact (gives_each_cell header seen placed).mono fun _ h => lettersOf_eq_flatMap h

/-- Each row tells what it has within reach; the rows above come into it for the cells that continue
others. -/
lemma gives_rows (above : List GridRow) (elements : List Element) :
    Gives (rows source above (elements.map .ofElement)) (List.Forall₂ (fun row node =>
      Tells row (Reach.row row) node.textContent.toList) elements) := by
  induction elements generalizing above with
  | nil => exact gives_pure .nil
  | cons row elements ih =>
    rw [List.map_cons, rows]
    refine (gives_need fun placed hplaced => tells_row hplaced).bind fun placed hplaced =>
      (gives_cells _ [] placed).bind fun nodes hnodes => (ih _).bind fun later hlater =>
        gives_pure (.cons (hplaced.of_letters ?_) hlater)
    rw [lettersOf_children rfl, ← hnodes]
    rfl

theorem gives_table (element : Element) : Gives (table source element) fun node =>
    Tells element (Reach.table element) node.textContent.toList := by
  refine (gives_rows [] _).bind fun rows hrows => gives_pure ?_
  have htold := Tells.forall₂ (fun row hrow hself => hself.named hrow) hrows
  refine htold.of_letters ?_
  rw [lettersOf_children rfl, ← textContents_eq_flatMap]
  rfl

lemma gives_entries (element : Element) : Gives (entries source element) fun found =>
    Tells element (Reach.block element) (found.flatMap Entry.letters) := by
  rw [entries, Reach.block]
  split
  · refine (gives_table element).bind fun node hnode => gives_pure (hnode.of_letters ?_)
    simp [Entry.letters]
  · split
    · refine (gives_paragraph element).mono fun found hfound => ?_
      exact (Inline.tells_paragraph element).of_letters (by rw [hfound, Text.letters_letters])
    · exact gives_pure (.refl element [])

/-- The blocks of a body tell what the body has within reach. -/
theorem gives_blocks (body : Element) : Gives (blocks source body) fun nodes =>
    Tells body (Reach.body body) (textContents nodes).toList := by
  refine (gives_mapM gives_entries _).bind fun found hfound => gives_pure ?_
  have htold := Tells.forall₂ (fun c hc hself => hself.child hc) hfound
  have hflatten : found.flatten.flatMap Entry.letters =
      found.flatMap fun entries => entries.flatMap Entry.letters := by
    rw [← List.flatMap_id, List.flatMap_assoc]
    rfl
  refine htold.of_letters ?_
  rw [← hflatten, ← Entry.lettersOf_blocks, lettersOf, Text.letters_letters]

end Body

end Interchange.Word
