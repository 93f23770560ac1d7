import Interchange.Proofs.Word.Numbering
import Interchange.Proofs.Word.ReadingOrder

/-!
# Texts that are stored

Text gets into a package at many places: in runs, as the address of a link, with a picture, in a
footnote, as a core property. At each place there is a text of the document that it comes from.
The texts of a line are accounted for by their sources, and so is the notice that characters were
removed.
-/
namespace Interchange

namespace Noted

variable {α β : Type}

lemma map_notices (f : α → β) (c : Noted α) : (f <$> c).notices = c.notices :=
  List.append_nil _

lemma mapM_notices (f : α → Noted β) (items : List α) :
    (items.mapM f).notices = items.flatMap fun a => (f a).notices := by
  induction items with
  | nil => rfl
  | cons a items ih =>
    rw [List.mapM_cons]
    simp only [bind_notices, pure_notices, List.append_nil, ih, List.flatMap_cons]

/-- Where the notices of a step do not depend on the value before it. -/
lemma foldlM_notices {step : β → α → Noted β} {noted : α → List Notice}
    (h : ∀ b a, (step b a).notices = noted a) (b : β) (items : List α) :
    (items.foldlM step b).notices = items.flatMap noted := by
  induction items generalizing b with
  | nil => rfl
  | cons a items ih => rw [List.foldlM_cons, bind_notices, h, ih, List.flatMap_cons]

/-- Where they do, but all satisfy the same. -/
lemma forall_mem_foldlM {step : β → α → Noted β} {P : Notice → Prop}
    (h : ∀ b a, ∀ notice ∈ (step b a).notices, P notice) (b : β) (items : List α) :
    ∀ notice ∈ (items.foldlM step b).notices, P notice := by
  induction items generalizing b with
  | nil => exact List.forall_mem_nil _
  | cons a items ih =>
    rw [List.foldlM_cons, bind_notices]
    exact List.forall_mem_append.2 ⟨h b a, ih _⟩

end Noted

namespace Word

/-- Where a text stands in a package. -/
inductive TextPlace where
  | run
  | target
  | description
  | footnote (number : ℕ)
  | core (field : CoreField)
deriving DecidableEq

structure PackageText where
  place : TextPlace
  text : String
deriving DecidableEq

namespace PackageText

/-- The text without the characters that markup forbids, cut if it is a core property. -/
def cleaned (source : PackageText) : PackageText :=
  match source.place with
  | .core _ =>
    ⟨source.place, String.ofList ((allowedText source.text).toList.take coreLimit)⟩
  | _ => ⟨source.place, allowedText source.text⟩

/-- In a run every line ends in one way. -/
def laid (source : PackageText) : PackageText :=
  match source.place with
  | .run => ⟨.run, String.ofList (source.text.toList.map fun c => if c = '\r' then '\n' else c)⟩
  | _ => source

/-- Without characters there is no text in a run. -/
def isPresent (source : PackageText) : Bool := source.place ≠ .run || source.text ≠ ""

/-- What a package has of some texts. -/
def stored (sources : List PackageText) : List PackageText :=
  (sources.map fun source => source.cleaned.laid).filter isPresent

lemma stored_append (sources others : List PackageText) :
    stored (sources ++ others) = stored sources ++ stored others := by
  rw [stored, List.map_append, List.filter_append]
  rfl

lemma stored_cons (source : PackageText) (sources : List PackageText) :
    stored (source :: sources) = stored [source] ++ stored sources :=
  stored_append [source] sources

lemma stored_run (text : String) :
    stored [⟨.run, text⟩] = [⟨.run, String.ofList (shownChars text)⟩].filter isPresent := by
  simp [stored, cleaned, laid, shownChars, allowedText]

/-- Elsewhere the text is kept even if nothing is left of it. -/
lemma stored_apart (place : TextPlace) (h : place ≠ .run) (text : String) :
    stored [⟨place, text⟩] = [(⟨place, text⟩ : PackageText).cleaned] := by
  cases place with
  | run => exact absurd rfl h
  | _ => simp [stored, cleaned, laid, isPresent]

end PackageText

open PackageText (stored stored_append stored_cons stored_run stored_apart)

/-- Whether a part stands for characters of a text. -/
def RunPart.isText : RunPart → Bool
  | .text _ | .tab | .lineBreak => true
  | _ => false

def RunPart.description? : RunPart → Option String
  | .picture shown => shown.description
  | _ => none

def Run.words (run : Run) : String :=
  String.ofList ((run.parts.filter RunPart.isText).flatMap RunPart.chars)

def Run.texts (run : Run) : List PackageText :=
  [⟨.run, run.words⟩].filter PackageText.isPresent ++
    (run.parts.filterMap RunPart.description?).map (⟨.description, ·⟩)

def RunItem.texts : RunItem → List PackageText
  | .run single => single.texts
  | .link url several => ⟨.target, url⟩ :: several.flatMap Run.texts

/-- The texts of some blocks, those in cells among them. -/
def blockTexts (blocks : List Block) : List PackageText :=
  (paragraphsOfBlocks blocks).flatMap fun p => p.items.flatMap RunItem.texts

/-- The paragraphs of footnotes that are numbered from a number on. -/
def numberedTexts (number : ℕ) : List FootnoteText → List PackageText
  | [] => []
  | footnote :: footnotes =>
    footnote.map (⟨.footnote number, ·⟩) ++ numberedTexts (number + 1) footnotes

def propertyTexts (properties : CoreProperties) : List PackageText :=
  CoreField.all.map fun field => ⟨.core field, properties field⟩

/-- The texts that are put into a package. -/
def Composition.texts (composition : Composition) : List PackageText :=
  blockTexts composition.blocks ++
    (numberedTexts 1 composition.footnotes ++ propertyTexts composition.core)

section

variable (doc : Document)

/-- Whether the data of a picture is put into the package. -/
def isEmbedded (props : Bag) : Bool :=
  ((Bag.text? props Key.resource).bind doc.named?).any fun resource =>
    (ImageFormat.ofData? resource.data).isSome

/-- The alternative text of a picture, or the text that stands for it. -/
def pictureTexts (props : Bag) : List PackageText :=
  let alt := Bag.textOr props Key.alt
  if isEmbedded doc props then if alt = "" then [] else [⟨.description, alt⟩]
  else [⟨.run, pictureText alt⟩]

/-- The text that stands for a reference to a footnote, if there is no such footnote. -/
def referenceTexts (props : Bag) : List PackageText :=
  let label := Bag.textOr props Key.label
  if (footnoteNumber? (footnoteNodes doc) label).isSome then [] else [⟨.run, "[" ++ label ++ "]"⟩]

mutual

/-- The texts of a node in a line, in the order of the document. -/
def textsInLine : Node → List PackageText
  | node@⟨kind, props, children, _⟩ =>
    match InlineRole.ofKind? kind with
    | none => [⟨.run, node.plainText⟩]
    | some .text => [⟨.run, Bag.textOr props Key.content⟩]
    | some .code => [⟨.run, Bag.textOr props Key.content⟩]
    | some (.mark _) => textsInLines children
    | some .span => textsInLines children
    | some .quoted => ⟨.run, "“"⟩ :: (textsInLines children ++ [⟨.run, "”"⟩])
    | some .link =>
      match Bag.filled? props Key.url with
      | none => textsInLines children
      | some url =>
        ⟨.target, url⟩ :: if children.isEmpty then [⟨.run, url⟩] else textsInLines children
    | some .image => pictureTexts doc props
    | some .lineBreak => [⟨.run, "\n"⟩]
    | some .softBreak => [⟨.run, " "⟩]
    | some .footnoteRef => referenceTexts doc props

def textsInLines : List Node → List PackageText
  | [] => []
  | node :: nodes => textsInLine node ++ textsInLines nodes

end

mutual

/-- The texts of a block, in the order of the document. The bodies of footnotes stand elsewhere. -/
def textsIn (inCell inList : Bool) : Node → List PackageText
  | node@⟨kind, props, children, _⟩ =>
    match BlockRole.ofKind kind with
    | .container => textsAmong inCell false children
    | .quote => textsAmong inCell false children
    | .paragraph => textsInLines doc children
    | .heading => textsInLines doc children
    | .codeBlock => [⟨.run, Bag.textOr props Key.content⟩]
    | .list => textsAmong inCell true children
    | .listItem =>
      if inList then textsAmong inCell false children else [⟨.run, node.plainText⟩]
    | .table => textsInRows children
    | .rule => if Bag.isOn props Key.pageBreak ∧ !inCell then [] else [⟨.run, "* * *"⟩]
    | .footnoteDef => []
    | .inline => textsInLine doc node
    | .unknown => [⟨.run, node.plainText⟩]

def textsAmong (inCell inList : Bool) : List Node → List PackageText
  | [] => []
  | node :: nodes => textsIn inCell inList node ++ textsAmong inCell inList nodes

def textsInRows : List Node → List PackageText
  | [] => []
  | ⟨kind, _, cells, _⟩ :: nodes =>
    (if kind = .tableRow then textsInCells cells else []) ++ textsInRows nodes

def textsInCells : List Node → List PackageText
  | [] => []
  | ⟨_, _, children, _⟩ :: nodes => textsInCell children ++ textsInCells nodes

/-- A table directly in a cell comes down to its text. -/
def textsInCell : List Node → List PackageText
  | [] => []
  | node :: nodes =>
    (if node.kind = .table then [⟨.run, node.textContent⟩] else textsIn true false node) ++
      textsInCell nodes

end

end

/-- What the core properties say: where the document says nothing, what a new package says. -/
def coreTexts (metadata : Bag) : List PackageText :=
  CoreField.all.map fun field =>
    ⟨.core field, (Bag.filled? metadata field.name).getD (CoreProperties.ofTemplate field)⟩

/-- The texts that a document has for a package. -/
def sourceTexts (doc : Document) : List PackageText :=
  textsIn doc false false doc.content ++
    (numberedTexts 1 ((footnoteNodes doc).map footnoteTexts) ++ coreTexts doc.metadata)

/-- A notice that cannot be taken for the one of removed characters. -/
structure IsApart (notice : Notice) : Prop where
  topic : notice.topic ≠ removedNotice.topic
  loss : notice.warning.loss ≠ removedNotice.warning.loss

lemma isApart_simplified {topic : Option Topic} {name message : String} {severity : Severity}
    (htopic : topic ≠ removedNotice.topic) (hname : name ≠ "control characters") :
    IsApart ⟨topic, .simplified name message severity⟩ :=
  ⟨htopic, fun h => hname (Loss.simplified.inj h)⟩

lemma isApart_noteWhen {notice : Notice} (condition : Bool) (h : IsApart notice) :
    ∀ noted ∈ (Noted.noteWhen condition notice).notices, IsApart noted := by
  cases condition
  · exact List.forall_mem_nil _
  · exact List.forall_mem_singleton.2 h

/-- Texts are what is stored of their sources, and it is noted whether one of these loses a
character. What else is noted is something apart, or that one of some nodes is of no known kind. -/
structure Accounts (nodes : List Node) (texts : List PackageText) (notices : List Notice)
    (sources : List PackageText) : Prop where
  stored : texts.Perm (stored sources)
  noted : removedNotice ∈ notices ↔ ∃ source ∈ sources, isStorable source.text = false
  others : ∀ notice ∈ notices,
    notice = removedNotice ∨ IsApart notice ∨ ∃ node ∈ nodes, notice = .ofUnknown node

/-- What a step stores is accounted for. -/
abbrev Stores {α : Type} (nodes : List Node) (keptOf : α → List PackageText) (c : Noted α)
    (sources : List PackageText) : Prop :=
  Accounts nodes (keptOf c.value) c.notices sources

lemma isStorable_allowedText (text : String) : isStorable (allowedText text) = true :=
  List.all_eq_true.2 fun _ hc => isAllowed_of_mem_allowedText hc

lemma allowedText_of_isStorable {text : String} (h : isStorable text = true) :
    allowedText text = text := by
  rw [allowedText, List.filter_eq_self.2 (List.all_eq_true.1 h), String.ofList_toList]

lemma storable_notices (text : String) :
    (storable text).notices = if isStorable text then [] else [removedNotice] := by
  simp only [storable, Noted.noteWhen, Noted.bind_notices, Noted.pure_notices, List.append_nil]
  cases isStorable text <;> rfl

namespace Accounts

variable {nodes more : List Node} {kept others : List PackageText} {notices later : List Notice}
  {sources rest : List PackageText}

lemma nil : Accounts nodes [] [] [] := ⟨.refl _, by simp, List.forall_mem_nil _⟩

lemma within (h : Accounts nodes kept notices sources) (hnodes : nodes ⊆ more) :
    Accounts more kept notices sources :=
  ⟨h.stored, h.noted, fun notice hnotice => (h.others notice hnotice).imp_right
    (Or.imp_right fun ⟨node, hnode, hown⟩ => ⟨node, hnodes hnode, hown⟩)⟩

lemma append (h : Accounts nodes kept notices sources) (h' : Accounts more others later rest) :
    Accounts (nodes ++ more) (kept ++ others) (notices ++ later) (sources ++ rest) := by
  refine ⟨?_, ?_, List.forall_mem_append.2 ⟨?_, ?_⟩⟩
  · rw [stored_append]
    exact h.stored.append h'.stored
  · rw [List.mem_append, h.noted, h'.noted]
    simp only [List.mem_append, or_and_right, exists_or]
  · exact (h.within (List.subset_append_left _ _)).others
  · exact (h'.within (List.subset_append_right _ _)).others

/-- Nothing is noted when a value is given back. -/
lemma returned (h : Accounts nodes kept notices sources) :
    Accounts nodes kept (notices ++ []) sources := by
  rwa [List.append_nil]

lemma of_perm (h : Accounts nodes kept notices sources) (hperm : others.Perm kept) :
    Accounts nodes others notices sources :=
  ⟨hperm.trans h.stored, h.noted, h.others⟩

/-- Something else is noted before. -/
lemma noting {notice : Notice} (hnotice : IsApart notice)
    (h : Accounts nodes kept notices sources) :
    Accounts nodes kept ([notice] ++ notices) sources := by
  have hne : removedNotice ≠ notice := fun hsame => hnotice.topic (by rw [hsame])
  refine ⟨h.stored, by simpa [hne] using h.noted, ?_⟩
  exact List.forall_mem_cons.2 ⟨.inr (.inl hnotice), h.others⟩

lemma notingAll {before : List Notice} (hbefore : ∀ notice ∈ before, IsApart notice)
    (h : Accounts nodes kept notices sources) :
    Accounts nodes kept (before ++ notices) sources := by
  induction before with
  | nil => exact h
  | cons notice before ih =>
    obtain ⟨hnotice, hrest⟩ := List.forall_mem_cons.1 hbefore
    exact (ih hrest).noting hnotice

lemma followed (h : Accounts nodes kept notices sources)
    (hlater : ∀ notice ∈ later, IsApart notice) :
    Accounts nodes kept (notices ++ later) sources := by
  have hboth := h.append (nil.notingAll hlater : Accounts [] [] (later ++ []) [])
  simpa only [List.append_nil] using hboth

/-- Each of some texts. -/
lemma each {α : Type} {items : List α} {keptOf : α → List PackageText}
    {noticesOf : α → List Notice} {sourcesOf : α → List PackageText}
    (h : ∀ a, Accounts [] (keptOf a) (noticesOf a) (sourcesOf a)) :
    Accounts [] (items.flatMap keptOf) (items.flatMap noticesOf) (items.flatMap sourcesOf) := by
  induction items with
  | nil => exact nil
  | cons a items ih => exact (h a).append ih

/-- Before, a node of no known kind is noted. -/
lemma unknown (node : Node) (h : Accounts nodes kept notices sources) :
    Accounts (node :: nodes) kept ([.ofUnknown node] ++ notices) sources := by
  have hne : removedNotice ≠ .ofUnknown node := fun hsame => by
    cases congrArg Notice.topic hsame
  have hothers := (h.within (List.subset_cons_self node nodes)).others
  refine ⟨h.stored, by simpa [hne] using h.noted, ?_⟩
  exact List.forall_mem_cons.2 ⟨.inr (.inr ⟨node, List.mem_cons_self, rfl⟩), hothers⟩

/-- One text is stored. -/
lemma source {place : TextPlace} {text : String} (h : kept = PackageText.stored [⟨place, text⟩]) :
    Accounts [] kept (storable text).notices [⟨place, text⟩] := by
  rw [storable_notices]
  refine ⟨.of_eq h, ?_, ?_⟩
  · cases hstorable : isStorable text <;> simp [hstorable]
  · cases isStorable text
    · exact List.forall_mem_singleton.2 (.inl rfl)
    · exact List.forall_mem_nil _

lemma elsewhere (place : TextPlace) (h : place ≠ .run) (text : String) :
    Accounts [] [(⟨place, text⟩ : PackageText).cleaned] (storable text).notices [⟨place, text⟩] :=
  source (PackageText.stored_apart place h text).symm

/-- A text that has no characters needs no place in a run. -/
lemma void : Accounts nodes [] [] [⟨.run, ""⟩] := by
  refine ⟨?_, ?_, List.forall_mem_nil _⟩
  · rw [stored_run]
    exact .refl _
  · simp [isStorable]

end Accounts

/-- What does not change while a document is composed. -/
def Setting.ofDocument (doc : Document) (tables : Option String) : Setting :=
  ⟨doc, footnoteNumbers (footnoteNodes doc), tables⟩

lemma texts_ofText (format : RunFormat) (text : String) :
    (Run.ofText format (allowedText text)).texts = stored [⟨.run, text⟩] := by
  let run := Run.ofText format (allowedText text)
  have hwords : run.parts.filter RunPart.isText = run.parts :=
    List.filter_eq_self.2
      (forall_mem_ofChars (P := fun part => part.isText = true) (fun _ => rfl) rfl rfl _)
  have hpictures : run.parts.filterMap RunPart.description? = [] :=
    List.filterMap_eq_nil_iff.2
      (forall_mem_ofChars (P := fun part => part.description? = none) (fun _ => rfl) rfl rfl _)
  have hchars : run.parts.flatMap RunPart.chars = shownChars text := chars_ofText format text
  rw [Run.texts, Run.words, hwords, hchars, hpictures, List.map_nil, List.append_nil, stored_run]

lemma stores_composeRun (format : RunFormat) (text : String) :
    Stores [] Run.texts (composeRun format text) [⟨.run, text⟩] :=
  (Accounts.source (texts_ofText format text)).returned

/-- The texts of the pieces of a line. -/
def placedTexts (pieces : List Placed) : List PackageText :=
  pieces.flatMap fun piece => piece.item.texts

lemma placedTexts_append (pieces others : List Placed) :
    placedTexts (pieces ++ others) = placedTexts pieces ++ placedTexts others := List.flatMap_append

lemma placedTexts_run (placed : Placed) {run : Run} (h : placed.item = .run run) :
    placedTexts [placed] = run.texts := by
  rw [placedTexts, List.flatMap_singleton, h, RunItem.texts]

/-- A link has its address and all texts of the pieces that it is put around. -/
lemma placedTexts_linkAround (url : String) (pieces : List Placed) :
    (placedTexts (linkAround url pieces)).Perm ([⟨.target, url⟩] ++ placedTexts pieces) := by
  have hpieces : ((pieces.filterMap Placed.held?).flatMap Run.texts ++
      (pieces.filterMap Placed.loose?).flatMap RunItem.texts).Perm (placedTexts pieces) := by
    induction pieces with
    | nil => exact .refl _
    | cons piece pieces ih =>
      cases piece with
      | held run =>
        simp only [List.filterMap_cons, Placed.held?, Placed.loose?, List.flatMap_cons,
          List.append_assoc]
        exact ih.append_left run.texts
      | loose item =>
        simp only [List.filterMap_cons, Placed.held?, Placed.loose?, List.flatMap_cons]
        exact (List.perm_append_comm_assoc _ _ _).trans (ih.append_left item.texts)
  rw [linkAround, placedTexts, List.flatMap_cons, List.flatMap_map, Placed.item, RunItem.texts,
    List.singleton_append, List.cons_append]
  exact hpieces.cons _

section Lines

variable (doc : Document) (tables : Option String)

lemma stores_heldRun (format : RunFormat) (text : String) :
    Stores [] placedTexts (heldRun format text) [⟨.run, text⟩] := by
  rw [Stores, heldRun, Noted.map_notices, Noted.map_value, placedTexts_run _ rfl]
  exact stores_composeRun format text

lemma stores_looseRun (text : String) :
    Stores [] placedTexts (looseRun <$> composeRun .plain text) [⟨.run, text⟩] := by
  rw [Stores, Noted.map_notices, Noted.map_value, looseRun, placedTexts_run _ rfl]
  exact stores_composeRun .plain text

lemma stores_composeUnknown (format : RunFormat) (node : Node) :
    Stores [node] placedTexts (composeUnknown format node) [⟨.run, node.plainText⟩] := by
  rw [Stores, composeUnknown, Noted.bind_value, Noted.bind_notices]
  refine Accounts.unknown node ?_
  split
  · next hempty =>
    rw [hempty]
    exact .void
  · exact stores_heldRun format _

/-- The description of a picture is its alternative text, unless this is empty. -/
lemma accounts_embedded (format : ImageFormat) (data : ByteArray) (alt : String) :
    Accounts [] (placedTexts (looseRun
        ⟨.plain, [.picture ⟨format, data, (composeDescription alt).value⟩]⟩))
      (composeDescription alt).notices (if alt = "" then [] else [⟨.description, alt⟩]) := by
  have htexts (description : Option String) :
      placedTexts (looseRun ⟨.plain, [.picture ⟨format, data, description⟩]⟩) =
        description.toList.map (⟨.description, ·⟩) := by
    rw [looseRun, placedTexts_run _ rfl]
    cases description <;> rfl
  rw [htexts, composeDescription]
  split
  · exact .nil
  · rw [Noted.map_notices]
    exact Accounts.elsewhere .description (by simp) alt

lemma stores_composePicture (props : Bag) :
    Stores [] placedTexts (composePicture (.ofDocument doc tables) props)
      (pictureTexts doc props) := by
  have hexternal : IsApart externalNotice := ⟨by decide, by decide⟩
  have hfailed (name message : String) : IsApart (failedNotice name message) :=
    ⟨fun h => (by cases h), fun h => (by cases h)⟩
  unfold composePicture
  dsimp only
  split
  · next hname =>
    rw [pictureTexts, isEmbedded, hname]
    exact (stores_looseRun _).noting hexternal
  · next name hname =>
    rw [pictureTexts, isEmbedded, hname, Option.bind_some]
    split
    · next hresource =>
      have hdoc : doc.named? name = none := hresource
      rw [hdoc]
      exact (stores_looseRun _).noting (hfailed _ _)
    · next resource hresource =>
      have hdoc : doc.named? name = some resource := hresource
      rw [hdoc, Option.any_some]
      split
      · next hformat =>
        rw [hformat]
        exact (stores_looseRun _).noting (hfailed _ _)
      · next format hformat =>
        rw [hformat]
        exact (accounts_embedded format _ _).returned

lemma stores_composeReference (props : Bag) :
    Stores [] placedTexts (composeReference (.ofDocument doc tables) props)
      (referenceTexts doc props) := by
  have hundefined (label : String) : IsApart (undefinedNotice label) :=
    isApart_simplified (fun h => by cases h) (by decide)
  have hnumber (label : String) : (Setting.ofDocument doc tables).number? label =
      footnoteNumber? (footnoteNodes doc) label := rfl
  unfold composeReference referenceTexts
  dsimp only
  rw [hnumber]
  cases footnoteNumber? (footnoteNodes doc) (Bag.textOr props Key.label) with
  | none => exact (stores_looseRun _).noting (hundefined _)
  | some number => exact .nil

lemma accounts_target (url : String) :
    Accounts [] [⟨.target, allowedText url⟩] (storable url).notices [⟨.target, url⟩] :=
  Accounts.elsewhere .target (by simp) url

/-- A link without parts has its address for text, too. -/
lemma accounts_bareLink (format : RunFormat) (url : String) :
    Accounts []
      ([⟨.target, allowedText url⟩] ++ placedTexts (heldRun format (allowedText url)).value)
      ((storable url).notices ++ ((heldRun format (allowedText url)).notices ++ []))
      [⟨.target, url⟩, ⟨.run, url⟩] := by
  have hboth := (accounts_target url).append (stores_heldRun format (allowedText url)).returned
  refine ⟨?_, ?_, hboth.others⟩
  · have hrun : stored [⟨.run, allowedText url⟩] = stored [⟨.run, url⟩] := by
      rw [stored_run, stored_run, shownChars_allowedText]
    rw [stored_cons, ← hrun, ← stored_append]
    exact hboth.stored
  · rw [hboth.noted]
    simp [isStorable_allowedText]

/-- A link is put around what it is not bare of. -/
lemma stores_composeLink {nodes : List Node} {content : Noted (List Placed)}
    {sources : List PackageText} (h : Stores nodes placedTexts content sources)
    (format : RunFormat) (url : String) (isBare : Bool) :
    Stores nodes placedTexts (composeLink format url isBare content)
      (⟨.target, url⟩ :: if isBare then [⟨.run, url⟩] else sources) := by
  rw [composeLink]
  split
  · exact ((accounts_bareLink format url).within (List.nil_subset _)).of_perm
      (placedTexts_linkAround _ _)
  · exact ((accounts_target url).append h.returned).of_perm (placedTexts_linkAround _ _)

mutual

/-- The cases are the roles of a node in a line. -/
theorem stores_compose (format : RunFormat) : ∀ node : Node,
    Stores node.walk placedTexts (compose (.ofDocument doc tables) format node)
      (textsInLine doc node)
  | ⟨kind, props, children, span⟩ => by
    have hwalk : Node.walkAll children ⊆ (Node.mk kind props children span).walk :=
      Node.below_subset_walk ⟨kind, props, _, span⟩
    rw [compose, textsInLine]
    generalize InlineRole.ofKind? kind = role
    cases role with
    | none => exact (stores_composeUnknown format _).within (by simp [Node.walk_eq])
    | some role =>
      cases role with
      | text => exact (stores_heldRun _ _).within (List.nil_subset _)
      | code => exact (stores_heldRun _ _).within (List.nil_subset _)
      | mark mark => exact (stores_composeAll _ children).within hwalk
      | span => exact (stores_composeAll _ children).within hwalk
      | quoted =>
        have hinside := (stores_composeAll format children).append
          (stores_heldRun format "”").returned
        have hquoted := (stores_heldRun format "“").append hinside
        refine (hquoted.of_perm (.of_eq ?_)).within ?_
        · rw [← placedTexts_append, ← placedTexts_append, ← List.append_assoc]
          rfl
        · simpa using hwalk
      | link =>
        have hinside := stores_composeAll format children
        dsimp only
        cases Bag.filled? props Key.url with
        | none =>
          rw [Stores, Noted.map_notices]
          refine (hinside.of_perm (.of_eq ?_)).within hwalk
          rw [Noted.map_value, placedTexts, List.flatMap_map]
          rfl
        | some url => exact (stores_composeLink hinside format url _).within hwalk
      | image => exact (stores_composePicture doc tables props).within (List.nil_subset _)
      | lineBreak => exact (stores_heldRun _ _).within (List.nil_subset _)
      | softBreak => exact (stores_heldRun _ _).within (List.nil_subset _)
      | footnoteRef => exact (stores_composeReference doc tables props).within (List.nil_subset _)

theorem stores_composeAll (format : RunFormat) : ∀ nodes : List Node,
    Stores (Node.walkAll nodes) placedTexts (composeAll (.ofDocument doc tables) format nodes)
      (textsInLines doc nodes)
  | [] => .nil
  | node :: nodes => by
    rw [Stores, composeAll, Noted.bind_value, Noted.bind_value, Noted.pure_value,
      placedTexts_append]
    exact (stores_compose format node).append (stores_composeAll format nodes).returned

end

end Lines

end Word

end Interchange
