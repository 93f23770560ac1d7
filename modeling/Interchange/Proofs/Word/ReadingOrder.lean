import Interchange.Document.Builders
import Interchange.Word.Compose.Block
import Mathlib.Tactic

/-!
# The order of running text

A line is written in the order of the document except around its links: what cannot stand in a link,
which is a picture, a reference to a footnote or another link, comes after it. So a paragraph reads
in order exactly when each of its links does, and a link does when nothing that can stand in it
comes after something that cannot.
-/
namespace Interchange.Word

def Run.chars (run : Run) : List Char := run.parts.flatMap RunPart.chars

def RunItem.chars (item : RunItem) : List Char := item.runs.flatMap Run.chars

/-- The text of a paragraph from left to right, that of a link in its place. -/
def Paragraph.chars (paragraph : Paragraph) : List Char :=
  paragraph.items.flatMap RunItem.chars

/-- What a run shows of a text: the characters that can be stored, and a line break where a line
ends in either way. -/
def shownChars (text : String) : List Char :=
  (text.toList.filter Markup.isAllowed).map fun c => if c = '\r' then '\n' else c

lemma chars_parts (cs : List Char) : (RunPart.ofChars cs).flatMap RunPart.chars =
    cs.map fun c => if c = '\r' then '\n' else c := by
  induction cs with
  | nil => rfl
  | cons c cs ih =>
    rw [RunPart.ofChars, List.map_cons]
    split
    · next htab =>
      rw [List.flatMap_cons, ih, htab]
      rfl
    · split
      · next hbreak =>
        rw [List.flatMap_cons, ih]
        rcases hbreak with rfl | rfl <;> rfl
      · next hbreak =>
        have hreturn : c ≠ '\r' := fun h => hbreak (.inr h)
        rw [if_neg hreturn, ← ih]
        split
        · next content parts hcs =>
          rw [hcs]
          rfl
        · rfl

@[simp] lemma chars_ofText (format : RunFormat) (text : String) :
    (Run.ofText format (allowedText text)).chars = shownChars text := by
  rw [Run.chars, Run.ofText, chars_parts, allowedText, String.toList_ofList, shownChars]

@[simp] lemma shownChars_allowedText (text : String) :
    shownChars (allowedText text) = shownChars text := by
  simp [shownChars, allowedText, List.filter_filter]

/-- A piece of text in a line. -/
structure TextPiece where
  /-- Whether it can stand in a link. -/
  held : Bool
  chars : List Char
deriving DecidableEq

/-- The piece as part of a link, which cannot stand in another link. -/
def TextPiece.loosened (piece : TextPiece) : TextPiece := { piece with held := false }

/-- The piece of a text, unless nothing of it is shown. -/
def textPieces (held : Bool) (text : String) : List TextPiece :=
  if shownChars text = [] then [] else [⟨held, shownChars text⟩]

/-- The text of some pieces. -/
def textOf (pieces : List TextPiece) : List Char := pieces.flatMap TextPiece.chars

/-- The text of those pieces that can stand in a link, or of those that cannot. -/
def textWhere (held : Bool) (pieces : List TextPiece) : List Char :=
  textOf (pieces.filter (·.held == held))

/-- The pieces that can stand in a link before those that cannot. -/
def heldFirst (pieces : List TextPiece) : List TextPiece :=
  pieces.filter (·.held == true) ++ pieces.filter (·.held == false)

@[simp] lemma textOf_append (pieces others : List TextPiece) :
    textOf (pieces ++ others) = textOf pieces ++ textOf others := List.flatMap_append

@[simp] lemma textWhere_append (held : Bool) (pieces others : List TextPiece) :
    textWhere held (pieces ++ others) = textWhere held pieces ++ textWhere held others := by
  rw [textWhere, List.filter_append, textOf_append, textWhere, textWhere]

@[simp] lemma textOf_textPieces (held : Bool) (text : String) :
    textOf (textPieces held text) = shownChars text := by
  rw [textPieces]
  split_ifs with h
  · exact h.symm
  · simp [textOf]

@[simp] lemma textWhere_textPieces (held own : Bool) (text : String) :
    textWhere held (textPieces own text) = if own = held then shownChars text else [] := by
  rw [textWhere, textPieces]
  by_cases h : shownChars text = []
  · simp [h, textOf]
  · by_cases hown : own = held <;> simp [h, hown, textOf]

@[simp] lemma textOf_loosened (pieces : List TextPiece) :
    textOf (pieces.map TextPiece.loosened) = textOf pieces := by
  rw [textOf, List.flatMap_map]
  rfl

@[simp] lemma textWhere_loosened (held : Bool) (pieces : List TextPiece) :
    textWhere held (pieces.map TextPiece.loosened) = if held then [] else textOf pieces := by
  rw [textWhere, List.filter_map, textOf_loosened]
  cases held <;> simp [Function.comp_def, TextPiece.loosened, textOf]

lemma textOf_heldFirst (pieces : List TextPiece) :
    textOf (heldFirst pieces) = textWhere true pieces ++ textWhere false pieces := textOf_append _ _

/-- Moving pieces loses no text. -/
lemma textOf_heldFirst_perm (pieces : List TextPiece) :
    (textOf (heldFirst pieces)).Perm (textOf pieces) := by
  have hpieces : (heldFirst pieces).Perm pieces := by
    have hsplit := List.filter_append_perm (·.held == true) pieces
    simpa [heldFirst] using hsplit
  exact hpieces.flatMap_right _

/-- The text that stands for a picture that is not put into the package. -/
def pictureWords (setting : Setting) (props : Bag) : String :=
  let words := pictureText (Bag.textOr props Key.alt)
  match (Bag.text? props Key.resource).bind setting.doc.named? with
  | none => words
  | some resource => if (ImageFormat.ofData? resource.data).isSome then "" else words

/-- The text that stands for a reference to a footnote that there is not. -/
def referenceWords (setting : Setting) (props : Bag) : String :=
  let label := Bag.textOr props Key.label
  if (setting.number? label).isSome then "" else "[" ++ label ++ "]"

section

variable (arrange : List TextPiece → List TextPiece)

mutual

/-- The pieces of text of a node in a line, when the parts of a link are arranged in some way. -/
def linePieces (setting : Setting) : Node → List TextPiece
  | node@⟨kind, props, children, _⟩ =>
    match InlineRole.ofKind? kind with
    | none => textPieces true node.plainText
    | some .text => textPieces true (Bag.textOr props Key.content)
    | some .code => textPieces true (Bag.textOr props Key.content)
    | some (.mark _) => linePiecesAll setting children
    | some .span => linePiecesAll setting children
    | some .quoted => textPieces true "“" ++ linePiecesAll setting children ++ textPieces true "”"
    | some .link =>
      match Bag.filled? props Key.url with
      | none => (linePiecesAll setting children).map .loosened
      | some url =>
        if children.isEmpty then textPieces false url
        else (arrange (linePiecesAll setting children)).map .loosened
    | some .image => textPieces false (pictureWords setting props)
    | some .lineBreak => textPieces true "\n"
    | some .softBreak => textPieces true " "
    | some .footnoteRef => textPieces false (referenceWords setting props)

def linePiecesAll (setting : Setting) : List Node → List TextPiece
  | [] => []
  | node :: nodes => linePieces setting node ++ linePiecesAll setting nodes

end

end

/-- The text of a line in the order of the document. -/
def lineText (setting : Setting) (nodes : List Node) : List Char :=
  textOf (linePiecesAll id setting nodes)

mutual

/-- The links with an address in a line, without those that stand in another one. -/
def outerLinks : Node → List Node
  | node@⟨kind, props, children, _⟩ =>
    match InlineRole.ofKind? kind with
    | some (.mark _) => outerLinksAmong children
    | some .span => outerLinksAmong children
    | some .quoted => outerLinksAmong children
    | some .link =>
      if (Bag.filled? props Key.url).isSome then [node] else outerLinksAmong children
    | _ => []

def outerLinksAmong : List Node → List Node
  | [] => []
  | node :: nodes => outerLinks node ++ outerLinksAmong nodes

end

/-- The text that can stand in a link, and after it the text that cannot, is the text of the link in
the order of the document. -/
def KeepsOrder (setting : Setting) (link : Node) : Prop :=
  textOf (heldFirst (linePiecesAll heldFirst setting link.children)) =
    lineText setting link.children

instance (setting : Setting) (link : Node) : Decidable (KeepsOrder setting link) :=
  inferInstanceAs (Decidable (_ = _))

/-- Pieces of a line have some text, and so have those of them that can stand in a link and those
that cannot. -/
structure Shows (placed : List Placed) (pieces : List TextPiece) : Prop where
  whole : (placed.flatMap fun piece => piece.item.chars) = textOf pieces
  held : (placed.filterMap Placed.held?).flatMap Run.chars = textWhere true pieces
  loose : (placed.filterMap Placed.loose?).flatMap RunItem.chars = textWhere false pieces

namespace Shows

variable {placed others : List Placed} {pieces more : List TextPiece}

lemma nil : Shows [] [] := ⟨rfl, rfl, rfl⟩

lemma append (h : Shows placed pieces) (h' : Shows others more) :
    Shows (placed ++ others) (pieces ++ more) := by
  refine ⟨?_, ?_, ?_⟩
  · rw [List.flatMap_append, h.whole, h'.whole, textOf_append]
  · rw [List.filterMap_append, List.flatMap_append, h.held, h'.held, textWhere_append]
  · rw [List.filterMap_append, List.flatMap_append, h.loose, h'.loose, textWhere_append]

lemma heldRun (format : RunFormat) (text : String) :
    Shows (heldRun format text).value (textPieces true text) := by
  constructor <;>
    simp [Word.heldRun, Placed.item, Placed.held?, Placed.loose?, RunItem.chars, RunItem.runs]

/-- A run that cannot stand in a link. -/
lemma looseRun {run : Run} {text : String} (h : run.chars = shownChars text) :
    Shows (looseRun run) (textPieces false text) := by
  constructor <;>
    simp [Word.looseRun, Placed.item, Placed.held?, Placed.loose?, RunItem.chars, RunItem.runs, h]

/-- Items that cannot stand in a link, with the text of some pieces. -/
lemma ofItems {items : List RunItem} (h : items.flatMap RunItem.chars = textOf pieces) :
    Shows (items.map .loose) (pieces.map .loosened) := by
  have hheld : (items.map Placed.loose).filterMap Placed.held? = [] :=
    List.filterMap_eq_nil_iff.2 (by simp [Placed.held?])
  have hloose : (items.map Placed.loose).filterMap Placed.loose? = items := by
    rw [List.filterMap_map]
    exact List.filterMap_some
  refine ⟨?_, ?_, ?_⟩
  · rw [List.flatMap_map, textOf_loosened]
    exact h
  · rw [hheld, textWhere_loosened]
    rfl
  · rw [hloose, textWhere_loosened]
    exact h

lemma loosened (h : Shows placed pieces) :
    Shows (placed.map fun piece => .loose piece.item) (pieces.map .loosened) := by
  have hitems : (placed.map Placed.item).flatMap RunItem.chars = textOf pieces := by
    rw [List.flatMap_map]
    exact h.whole
  simpa [Function.comp_def] using ofItems hitems

/-- A link has the text that can stand in it, and the other text comes after it. -/
lemma linkAround (h : Shows placed pieces) (url : String) :
    Shows (linkAround url placed) ((heldFirst pieces).map .loosened) := by
  have hitems : (RunItem.link url (placed.filterMap Placed.held?) ::
      placed.filterMap Placed.loose?).flatMap RunItem.chars = textOf (heldFirst pieces) := by
    rw [List.flatMap_cons, textOf_heldFirst, ← h.held, ← h.loose]
    rfl
  exact ofItems hitems

/-- A link without parts has its address for text. -/
lemma bareLink (format : RunFormat) (url : String) :
    Shows (Word.linkAround (allowedText url) (Word.heldRun format (allowedText url)).value)
      (textPieces false url) := by
  constructor <;>
    simp [Word.linkAround, Word.heldRun, Placed.item, Placed.held?, Placed.loose?, RunItem.chars,
      RunItem.runs]

end Shows

section

variable (setting : Setting)

lemma shows_composeUnknown (format : RunFormat) (node : Node) :
    Shows (composeUnknown format node).value (textPieces true node.plainText) := by
  rw [composeUnknown, Noted.bind_value]
  split
  · next hempty =>
    rw [hempty]
    exact .nil
  · exact .heldRun _ _

lemma shows_composePicture (props : Bag) :
    Shows (composePicture setting props).value (textPieces false (pictureWords setting props)) := by
  unfold composePicture pictureWords
  dsimp only
  cases Bag.text? props Key.resource with
  | none => exact .looseRun (chars_ofText _ _)
  | some name =>
    dsimp only [Option.bind_some]
    cases setting.doc.named? name with
    | none => exact .looseRun (chars_ofText _ _)
    | some resource =>
      dsimp only
      cases ImageFormat.ofData? resource.data with
      | none => exact .looseRun (chars_ofText _ _)
      | some format => exact .looseRun rfl

lemma shows_composeReference (props : Bag) :
    Shows (composeReference setting props).value
      (textPieces false (referenceWords setting props)) := by
  unfold composeReference referenceWords
  dsimp only
  cases setting.number? (Bag.textOr props Key.label) with
  | none => exact .looseRun (chars_ofText _ _)
  | some number => exact .looseRun rfl

mutual

/-- The cases are the roles of a node in a line. -/
theorem shows_compose (format : RunFormat) : ∀ node : Node,
    Shows (compose setting format node).value (linePieces heldFirst setting node)
  | ⟨kind, props, children, span⟩ => by
    rw [compose, linePieces]
    generalize InlineRole.ofKind? kind = role
    cases role with
    | none => exact shows_composeUnknown format _
    | some role =>
      cases role with
      | text => exact .heldRun _ _
      | code => exact .heldRun _ _
      | mark mark => exact shows_composeAll _ children
      | span => exact shows_composeAll _ children
      | quoted =>
        have hinside := shows_composeAll format children
        exact ((Shows.heldRun format "“").append hinside).append (.heldRun format "”")
      | link =>
        dsimp only
        cases Bag.filled? props Key.url with
        | none => exact (shows_composeAll format children).loosened
        | some url =>
          dsimp only
          rw [composeLink]
          split
          · exact .bareLink format url
          · exact (shows_composeAll format children).linkAround _
      | image => exact shows_composePicture setting props
      | lineBreak => exact .heldRun _ _
      | softBreak => exact .heldRun _ _
      | footnoteRef => exact shows_composeReference setting props

theorem shows_composeAll (format : RunFormat) : ∀ nodes : List Node,
    Shows (composeAll setting format nodes).value (linePiecesAll heldFirst setting nodes)
  | [] => .nil
  | node :: nodes => (shows_compose format node).append (shows_composeAll format nodes)

end

mutual

/-- However links are arranged, a line has all of its text. -/
theorem linePieces_perm : ∀ node : Node,
    (textOf (linePieces heldFirst setting node)).Perm (textOf (linePieces id setting node))
  | ⟨kind, props, children, span⟩ => by
    have hinside := linePiecesAll_perm children
    rw [lineText] at hinside
    rw [linePieces, linePieces]
    generalize InlineRole.ofKind? kind = role
    cases role with
    | none => exact .refl _
    | some role =>
      cases role with
      | mark mark => exact hinside
      | span => exact hinside
      | quoted =>
        simp only [textOf_append]
        exact (hinside.append_left _).append_right _
      | link =>
        dsimp only
        split
        · rw [textOf_loosened, textOf_loosened]
          exact hinside
        · split
          · exact .refl _
          · rw [textOf_loosened, textOf_loosened]
            exact (textOf_heldFirst_perm _).trans hinside
      | _ => exact .refl _

theorem linePiecesAll_perm : ∀ nodes : List Node,
    (textOf (linePiecesAll heldFirst setting nodes)).Perm (lineText setting nodes)
  | [] => .refl _
  | node :: nodes => by
    rw [lineText, linePiecesAll, linePiecesAll, textOf_append, textOf_append]
    exact (linePieces_perm node).append (linePiecesAll_perm nodes)

end

mutual

/-- A node of a line has its text in order when the outermost links in it do. -/
theorem textOf_linePieces_eq_iff : ∀ node : Node,
    textOf (linePieces heldFirst setting node) = textOf (linePieces id setting node) ↔
      ∀ link ∈ outerLinks node, KeepsOrder setting link
  | ⟨kind, props, children, span⟩ => by
    have hinside := textOf_linePiecesAll_eq_iff children
    rw [lineText] at hinside
    rw [linePieces, linePieces, outerLinks]
    generalize InlineRole.ofKind? kind = role
    cases role with
    | none => simp
    | some role =>
      cases role with
      | mark mark => exact hinside
      | span => exact hinside
      | quoted => simpa using hinside
      | link =>
        dsimp only
        cases Bag.filled? props Key.url with
        | none => simpa using hinside
        | some url =>
          dsimp only
          rw [Option.isSome_some, if_pos rfl, List.forall_mem_singleton, KeepsOrder]
          split
          · next hbare =>
            rw [List.isEmpty_iff.1 hbare]
            exact iff_of_true rfl rfl
          · rw [textOf_loosened, textOf_loosened, lineText, id]
      | _ => simp

theorem textOf_linePiecesAll_eq_iff : ∀ nodes : List Node,
    textOf (linePiecesAll heldFirst setting nodes) = lineText setting nodes ↔
      ∀ link ∈ outerLinksAmong nodes, KeepsOrder setting link
  | [] => iff_of_true rfl (List.forall_mem_nil _)
  | node :: nodes => by
    have hlength := (linePieces_perm setting node).length_eq
    rw [lineText, linePiecesAll, linePiecesAll, textOf_append, textOf_append, outerLinksAmong,
      List.forall_mem_append, List.append_eq_append_iff_of_size_eq_left hlength,
      textOf_linePieces_eq_iff node]
    exact and_congr_right fun _ => textOf_linePiecesAll_eq_iff nodes

end

end

/-- The first block that is written is a paragraph that reads from left to right as some nodes do in
the document. -/
def ReadsInOrder (setting : Setting) (written : List Block) (nodes : List Node) : Prop :=
  ∃ paragraph others, written = .paragraph paragraph :: others ∧
    paragraph.chars = lineText setting nodes

section

variable (setting : Setting)

lemma chars_composeItems (nodes : List Node) :
    (composeItems setting nodes).value.flatMap RunItem.chars =
      textOf (linePiecesAll heldFirst setting nodes) := by
  rw [← (shows_composeAll setting .plain nodes).whole, composeItems, Noted.map_value,
    List.flatMap_map]

/-- Wherever a paragraph stands, it is written with the pieces of its line. -/
lemma exists_composeBlock (spot : Spot) (props : Bag) (children : List Node) (span : Option Span) :
    ∃ paragraph,
      (composeBlock setting spot ⟨.paragraph, props, children, span⟩).value =
        [.paragraph paragraph] ∧
      paragraph.chars = textOf (linePiecesAll heldFirst setting children) := by
  have hown : (composeBlock setting spot ⟨.paragraph, props, children, span⟩).value =
      (composeOwnParagraph setting spot .paragraph props children).value := by
    rw [composeBlock]
    rfl
  have hchars := chars_composeItems setting children
  rw [hown, composeOwnParagraph]
  cases spot.paragraphStyle with
  | none => exact ⟨_, rfl, hchars⟩
  | some style => exact ⟨_, rfl, hchars⟩

/-- So is a paragraph that is the first node of a cell. -/
lemma exists_composeCell (props : Bag) (children : List Node) (span : Option Span)
    (nodes : List Node) : ∃ paragraph others,
      (composeCell setting (⟨.paragraph, props, children, span⟩ :: nodes)).value =
        .paragraph paragraph :: others ∧
      paragraph.chars = textOf (linePiecesAll heldFirst setting children) := by
  have hinline : isInline ⟨.paragraph, props, children, span⟩ = false := rfl
  have hcell : (composeCell setting (⟨.paragraph, props, children, span⟩ :: nodes)).value =
      .paragraph ⟨none, none, (composeItems setting children).value⟩ ::
        (composeCellBlocks setting nodes).value := by
    rw [composeCell, if_neg (by simp [hinline]), if_pos rfl]
    rfl
  exact ⟨_, _, hcell, chars_composeItems setting children⟩

/-- What is written of a paragraph reads in order when the outermost links in it do. -/
lemma readsInOrder_iff_of_chars {written : List Block} {paragraph : Paragraph}
    {others : List Block} {nodes : List Node} (hwritten : written = .paragraph paragraph :: others)
    (hchars : paragraph.chars = textOf (linePiecesAll heldFirst setting nodes)) :
    ReadsInOrder setting written nodes ↔
      ∀ link ∈ outerLinksAmong nodes, KeepsOrder setting link := by
  rw [← textOf_linePiecesAll_eq_iff, ← hchars]
  constructor
  · rintro ⟨found, rest, hfound, horder⟩
    rw [hwritten] at hfound
    cases hfound
    exact horder
  · intro horder
    exact ⟨paragraph, others, hwritten, horder⟩

/-- A paragraph, wherever it stands, reads in order exactly when every link in it does that has an
address and stands in no other: when the text that can stand in the link, followed by the text that
cannot, is the text of the link in the order of the document. -/
theorem readsInOrder_iff (spot : Spot) (props : Bag) (children : List Node) (span : Option Span)
    (nodes : List Node) :
    (ReadsInOrder setting (composeBlock setting spot ⟨.paragraph, props, children, span⟩).value
        children ↔
      ∀ link ∈ outerLinksAmong children, KeepsOrder setting link) ∧
    (ReadsInOrder setting
        (composeCell setting (⟨.paragraph, props, children, span⟩ :: nodes)).value children ↔
      ∀ link ∈ outerLinksAmong children, KeepsOrder setting link) := by
  constructor
  · obtain ⟨paragraph, hwritten, hchars⟩ := exists_composeBlock setting spot props children span
    exact readsInOrder_iff_of_chars setting hwritten hchars
  · obtain ⟨paragraph, others, hwritten, hchars⟩ :=
      exists_composeCell setting props children span nodes
    exact readsInOrder_iff_of_chars setting hwritten hchars

end

/-- A picture in a link, and a letter after it in the same link. -/
def pictureInLink : Node :=
  .branch .paragraph [(Node.branch .link [.leaf .image, .text "b"]).withText Key.url "u"]

/-- The letter stands in the link, and the words for the picture only after the link. -/
theorem not_readsInOrder_pictureInLink :
    ¬ReadsInOrder ⟨.empty, [], none⟩
      (composeBlock ⟨.empty, [], none⟩ .outermost pictureInLink).value pictureInLink.children := by
  rintro ⟨paragraph, others, hwritten, horder⟩
  have hitems : paragraph.items =
      (composeItems ⟨.empty, [], none⟩ pictureInLink.children).value := by
    cases hwritten
    rfl
  rw [Paragraph.chars, hitems] at horder
  revert horder
  decide +kernel

/-- In a link nothing that can stand in it comes after something that cannot. -/
def IsSettled (setting : Setting) (link : Node) : Prop :=
  (linePiecesAll id setting link.children).Pairwise fun piece later => later.held → piece.held

lemma heldFirst_of_pairwise {pieces : List TextPiece}
    (h : pieces.Pairwise fun piece later => later.held → piece.held) :
    heldFirst pieces = pieces := by
  induction pieces with
  | nil => rfl
  | cons piece pieces ih =>
    obtain ⟨hfirst, hrest⟩ := List.pairwise_cons.1 h
    by_cases hheld : piece.held = true
    · have hothers := ih hrest
      unfold heldFirst at hothers ⊢
      rw [List.filter_cons_of_pos (by simp [hheld]), List.filter_cons_of_neg (by simp [hheld]),
        List.cons_append, hothers]
    · have hloose : ∀ later ∈ piece :: pieces, later.held = false := by
        refine List.forall_mem_cons.2 ⟨Bool.eq_false_iff.2 hheld, fun later hlater => ?_⟩
        exact Bool.eq_false_iff.2 fun hlate => hheld (hfirst later hlater hlate)
      rw [heldFirst, List.filter_eq_nil_iff.2 (by simpa using hloose),
        List.filter_eq_self.2 (by simpa using hloose), List.nil_append]

lemma kind_of_link {kind : Kind} (h : InlineRole.ofKind? kind = some .link) : kind = .link := by
  have honly : ∀ e ∈ InlineRole.assignments, e.2 = .link → e.1 = .link := by decide
  obtain ⟨⟨found, role⟩, hfind, rfl⟩ := Option.map_eq_some_iff.1 h
  have hkind : found = kind := by simpa using List.find?_some hfind
  exact hkind ▸ honly _ (List.mem_of_find?_eq_some hfind) rfl

section

variable {setting : Setting}

mutual

/-- Where all links are settled nothing is moved. -/
theorem linePieces_of_isSettled : ∀ node : Node,
    (∀ part ∈ node.walk, part.kind = .link → IsSettled setting part) →
      linePieces heldFirst setting node = linePieces id setting node
  | ⟨kind, props, children, span⟩, h => by
    rw [Node.walk_eq, List.forall_mem_cons] at h
    have hinside := linePiecesAll_of_isSettled children h.2
    rw [linePieces, linePieces, hinside]
    generalize hrole : InlineRole.ofKind? kind = role
    cases role with
    | none => rfl
    | some role =>
      cases role with
      | link =>
        have hsettled := heldFirst_of_pairwise (h.1 (kind_of_link hrole))
        dsimp only at hsettled ⊢
        rw [hsettled, id]
      | _ => rfl

theorem linePiecesAll_of_isSettled : ∀ nodes : List Node,
    (∀ part ∈ Node.walkAll nodes, part.kind = .link → IsSettled setting part) →
      linePiecesAll heldFirst setting nodes = linePiecesAll id setting nodes
  | [], _ => rfl
  | node :: nodes, h => by
    rw [Node.walkAll, List.forall_mem_append] at h
    rw [linePiecesAll, linePiecesAll, linePieces_of_isSettled node h.1,
      linePiecesAll_of_isSettled nodes h.2]

end

end

/-- A paragraph reads in order when every link in it has what cannot stand in it at its end. -/
theorem readsInOrder_of_isSettled (setting : Setting) (spot : Spot) (props : Bag)
    (children : List Node) (span : Option Span)
    (h : ∀ part ∈ Node.walkAll children, part.kind = .link → IsSettled setting part) :
    ReadsInOrder setting (composeBlock setting spot ⟨.paragraph, props, children, span⟩).value
      children := by
  obtain ⟨paragraph, hwritten, hchars⟩ := exists_composeBlock setting spot props children span
  exact ⟨paragraph, [], hwritten, by rw [hchars, linePiecesAll_of_isSettled children h, lineText]⟩

end Interchange.Word
