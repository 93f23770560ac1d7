import Interchange.Proofs.Text.Letters
import Interchange.Word.Library.Content
import Interchange.Word.Reader
import Mathlib.Tactic

/-!
# The reach of a reader

The text typed in a document may stand at any depth. Within the reach of the reader are the runs
directly in a paragraph or in a link there, the paragraphs directly in the body or in a cell of a
table directly there, and of a run its pieces of text up to the first element or comment in each.
-/
namespace Interchange.Word

open Markup (Element Item)
open Text (Keeps letters)

mutual

/-- The characters of all pieces of text in an element, at any depth; all of its characters are such
when it is in a piece itself. -/
def typedIn (inPiece : Bool) : Element → List Char
  | ⟨name, _, content⟩ => typedAmong (inPiece || name = w "t") content

def typedAmong (inPiece : Bool) : List Item → List Char
  | [] => []
  | .element e :: items => typedIn inPiece e ++ typedAmong inPiece items
  | .text s :: items => (if inPiece then s.toList else []) ++ typedAmong inPiece items

end

def typed (element : Element) : List Char := typedIn false element

namespace Reach

def run (element : Element) : List Char :=
  (element.named (w "t")).flatMap fun piece => piece.leadingText.toList

/-- What stands directly in a paragraph. -/
def item (element : Element) : List Char :=
  if element.name = w "r" then run element
  else if element.name = w "hyperlink" then (element.named (w "r")).flatMap run
  else []

def paragraph (element : Element) : List Char := element.children.flatMap item

/-- A cell that takes up columns and does not continue another one. -/
def holdsContent (cell : Element) : Bool :=
  !(GridCell.ofElement cell).continues && (GridCell.ofElement cell).span.any (0 < ·)

def cell (element : Element) : List Char :=
  if holdsContent element then (element.named (w "p")).flatMap paragraph else []

def row (element : Element) : List Char := (element.named (w "tc")).flatMap cell

def table (element : Element) : List Char := (element.named (w "tr")).flatMap row

/-- What stands directly in a body. -/
def block (element : Element) : List Char :=
  if element.name = w "tbl" then table element
  else if element.name = w "p" then paragraph element
  else []

def body (element : Element) : List Char := element.children.flatMap block

end Reach

lemma sublist_children {f : Element → List Char} (inPiece : Bool) (element : Element)
    (h : ∀ c inPiece, (f c).Sublist (typedIn inPiece c)) :
    (element.children.flatMap f).Sublist (typedIn inPiece element) := by
  obtain ⟨name, attributes, content⟩ := element
  rw [typedIn, Element.children]
  generalize (inPiece || decide (name = w "t")) = inside
  induction content with
  | nil => exact List.nil_sublist _
  | cons item items ih =>
    cases item with
    | element e => exact (h e inside).append ih
    | text s => exact ih.trans (List.sublist_append_right _ _)

lemma flatMap_named (element : Element) (name : Markup.Name) (f : Element → List Char) :
    (element.named name).flatMap f =
      element.children.flatMap fun c => if c.name = name then f c else [] := by
  rw [Element.named]
  induction element.children with
  | nil => rfl
  | cons c children ih =>
    by_cases hname : c.name = name
    · simp [hname, ih]
    · simp [hname, ih]

lemma sublist_named {f : Element → List Char} (inPiece : Bool) (element : Element)
    {name : Markup.Name} (h : ∀ c inPiece, c.name = name → (f c).Sublist (typedIn inPiece c)) :
    ((element.named name).flatMap f).Sublist (typedIn inPiece element) := by
  rw [flatMap_named]
  refine sublist_children inPiece element fun c inPiece => ?_
  split
  · next hname => exact h c inPiece hname
  · exact List.nil_sublist _

lemma leadingText_sublist (inPiece : Bool) (piece : Element) (h : piece.name = w "t") :
    piece.leadingText.toList.Sublist (typedIn inPiece piece) := by
  obtain ⟨name, attributes, content⟩ := piece
  rw [typedIn, Element.leadingText]
  cases content with
  | nil => exact List.nil_sublist _
  | cons item items =>
    cases item with
    | element e => exact List.nil_sublist _
    | text s =>
      have hinside : (inPiece || decide (name = w "t")) = true := by
        rw [Bool.or_eq_true, decide_eq_true_iff]
        exact .inr h
      rw [hinside]
      exact List.sublist_append_left _ _

namespace Reach

lemma run_sublist (inPiece : Bool) (element : Element) :
    (run element).Sublist (typedIn inPiece element) :=
  sublist_named inPiece element fun piece inPiece h => leadingText_sublist inPiece piece h

lemma item_sublist (element : Element) (inPiece : Bool) :
    (item element).Sublist (typedIn inPiece element) := by
  rw [item]
  split
  · exact run_sublist inPiece element
  · split
    · exact sublist_named inPiece element fun c inPiece _ => run_sublist inPiece c
    · exact List.nil_sublist _

lemma paragraph_sublist (inPiece : Bool) (element : Element) :
    (paragraph element).Sublist (typedIn inPiece element) :=
  sublist_children inPiece element item_sublist

lemma cell_sublist (inPiece : Bool) (element : Element) :
    (cell element).Sublist (typedIn inPiece element) := by
  rw [cell]
  split
  · exact sublist_named inPiece element fun c inPiece _ => paragraph_sublist inPiece c
  · exact List.nil_sublist _

lemma table_sublist (inPiece : Bool) (element : Element) :
    (table element).Sublist (typedIn inPiece element) :=
  sublist_named inPiece element fun row inPiece _ =>
    sublist_named inPiece row fun c inPiece _ => cell_sublist inPiece c

lemma block_sublist (element : Element) (inPiece : Bool) :
    (block element).Sublist (typedIn inPiece element) := by
  rw [block]
  split
  · exact table_sublist inPiece element
  · split
    · exact paragraph_sublist inPiece element
    · exact List.nil_sublist _

theorem body_sublist_typed (element : Element) : (body element).Sublist (typed element) :=
  sublist_children false element block_sublist

end Reach

/-- Whether neither a hyphen nor a cell that continues another one is in an element: these stand for
text that is not typed where they are. -/
def StandsForItself (element : Element) : Prop :=
  ∀ part ∈ element :: element.descendants, part.name ≠ w "noBreakHyphen" ∧
    (part.name = w "tc" → (GridCell.ofElement part).continues = false)

instance (element : Element) : Decidable (StandsForItself element) :=
  inferInstanceAs (Decidable (∀ part ∈ element :: element.descendants, _ ∧ (_ → _)))

lemma descendantsIn_of_mem {c : Element} {content : List Item} (h : .element c ∈ content) :
    ∀ part ∈ c :: c.descendants, part ∈ Element.descendantsIn content := by
  induction content with
  | nil => cases h
  | cons item items ih =>
    intro part hpart
    rcases List.mem_cons.1 h with rfl | h
    · rw [Element.descendantsIn]
      exact List.mem_append_left _ hpart
    · have hitems := ih h part hpart
      cases item with
      | element e => exact List.mem_append_right (e :: e.descendants) hitems
      | text s => exact hitems

lemma StandsForItself.child {element c : Element} (h : StandsForItself element)
    (hc : c ∈ element.children) : StandsForItself c := by
  obtain ⟨name, attributes, content⟩ := element
  intro part hpart
  obtain ⟨item, hitem, hsome⟩ := List.mem_filterMap.1 hc
  cases item with
  | element e =>
    obtain rfl : e = c := Option.some.inj hsome
    exact h part (List.mem_cons_of_mem _ (descendantsIn_of_mem hitem part hpart))
  | text s => simp [Element.ofItem?] at hsome

lemma StandsForItself.named {element c : Element} {name : Markup.Name}
    (h : StandsForItself element) (hc : c ∈ element.named name) : StandsForItself c :=
  h.child (List.mem_filter.1 hc).1

/-- A text tells what an element has within reach, and no more when that stands for itself. -/
structure Tells (element : Element) (own told : List Char) : Prop where
  keeps : Keeps own told
  exact : StandsForItself element → letters told = letters own

namespace Tells

variable {element : Element} {own told : List Char} {f g : Element → List Char}
  {elements : List Element}

lemma refl (element : Element) (cs : List Char) : Tells element cs cs := ⟨.refl cs, fun _ => rfl⟩

lemma of_letters {told' : List Char} (h : Tells element own told)
    (hletters : letters told' = letters told) : Tells element own told' := by
  refine ⟨?_, fun hself => hletters.trans (h.exact hself)⟩
  rw [Text.keeps_iff, hletters, ← Text.keeps_iff]
  exact h.keeps

lemma append {own' told' : List Char} (h : Tells element own told)
    (h' : Tells element own' told') : Tells element (own ++ own') (told ++ told') := by
  refine ⟨h.keeps.append h'.keeps, fun hself => ?_⟩
  rw [Text.letters_append, Text.letters_append, h.exact hself, h'.exact hself]

lemma of_part {part : Element} (h : Tells part own told)
    (hself : StandsForItself element → StandsForItself part) : Tells element own told :=
  ⟨h.keeps, fun helement => h.exact (hself helement)⟩

/-- What several elements have within reach is told by what was made of them. -/
lemma forall₂ {α : Type} {text : α → List Char} {made : List α}
    (hself : ∀ c ∈ elements, StandsForItself element → StandsForItself c)
    (h : List.Forall₂ (fun c a => Tells c (f c) (text a)) elements made) :
    Tells element (elements.flatMap f) (made.flatMap text) := by
  induction h with
  | nil => exact .refl element []
  | cons hfirst _ ih =>
    obtain ⟨hc, hothers⟩ := List.forall_mem_cons.1 hself
    exact (hfirst.of_part hc).append (ih hothers)

lemma flatMap (hself : ∀ c ∈ elements, StandsForItself element → StandsForItself c)
    (h : ∀ c ∈ elements, Tells c (f c) (g c)) :
    Tells element (elements.flatMap f) (elements.flatMap g) := by
  refine ⟨Keeps.flatMap fun c hc => (h c hc).keeps, fun helement => ?_⟩
  rw [Text.letters_flatMap, Text.letters_flatMap]
  exact List.flatMap_congr fun c hc => (h c hc).exact (hself c hc helement)

lemma children (h : ∀ c ∈ element.children, Tells c (f c) (g c)) :
    Tells element (element.children.flatMap f) (element.children.flatMap g) :=
  flatMap (fun _ hc helement => helement.child hc) h

lemma named {name : Markup.Name} (h : ∀ c ∈ element.named name, Tells c (f c) (g c)) :
    Tells element ((element.named name).flatMap f) ((element.named name).flatMap g) :=
  flatMap (fun _ hc helement => helement.named hc) h

end Tells

lemma toList_join_map {α : Type} (f : α → String) (items : List α) :
    (String.join (items.map f)).toList = items.flatMap fun a => (f a).toList := by
  rw [String.toList_join, List.flatMap_map]

namespace Inline

/-- What a piece of a run stands for has letters of its own only in a hyphen. -/
lemma tells_piece (element : Element) :
    Tells element (if element.name = w "t" then element.leadingText.toList else [])
      (piece element).toList := by
  rw [piece]
  split
  · exact .refl element _
  · refine ⟨.nil _, fun hself => ?_⟩
    have hhyphen : element.name ≠ w "noBreakHyphen" := (hself element List.mem_cons_self).1
    rw [if_neg hhyphen]
    split_ifs <;> decide

lemma tells_run (run : Element) : Tells run (Reach.run run) (runText run).toList := by
  rw [runText, toList_join_map, Reach.run, flatMap_named]
  exact .children fun c _ => tells_piece c

/-- The text of what stands directly in a paragraph. -/
def itemText (element : Element) : List Char :=
  if element.name = w "r" then (runText element).toList
  else if element.name = w "hyperlink" then
    (element.named (w "r")).flatMap fun run => (runText run).toList
  else []

lemma tells_item (element : Element) : Tells element (Reach.item element) (itemText element) := by
  rw [Reach.item, itemText]
  split
  · exact tells_run element
  · split
    · exact .named fun run _ => tells_run run
    · exact .refl element []

lemma toList_paragraphText (paragraph : Element) :
    (Section.paragraphText paragraph).toList = paragraph.children.flatMap itemText := by
  rw [Section.paragraphText, toList_join_map]
  refine List.flatMap_congr fun e _ => ?_
  rw [itemText]
  split
  · rfl
  · split
    · exact toList_join_map runText _
    · rfl

theorem tells_paragraph (paragraph : Element) :
    Tells paragraph (Reach.paragraph paragraph) (Section.paragraphText paragraph).toList := by
  rw [toList_paragraphText]
  exact .children fun c _ => tells_item c

end Inline

end Interchange.Word
