import Interchange.Layout.Writer
import Mathlib.Tactic

/-!
# Blocks under each other

A document is laid out as its blocks with an empty line between each two. Said recursively, a block
is a line or more, its last line is ended, and an empty line comes before what follows.
-/
namespace Interchange.Layout

/-- An empty line before what follows, if anything does. -/
def followed (cs : Chars) : Chars := if cs.isEmpty then [] else '\n' :: cs

def stacked : List Chars → Chars
  | [] => []
  | block :: blocks => block ++ '\n' :: followed (stacked blocks)

@[simp] lemma followed_nil : followed [] = [] := rfl

lemma head?_followed {c : Char} {cs : Chars} (h : c ∈ (followed cs).head?) : c = '\n' := by
  cases cs with
  | nil => simp [followed] at h
  | cons d cs => simpa [followed] using h.symm

lemma followed_stacked_cons (block : Chars) (blocks : List Chars) :
    followed (stacked (block :: blocks)) = '\n' :: stacked (block :: blocks) := by
  simp [followed, stacked]

lemma stacked_eq_joinWith {blocks : List Chars} (h : blocks ≠ []) :
    stacked blocks = joinWith "\n\n" blocks ++ ['\n'] := by
  induction blocks with
  | nil => exact absurd rfl h
  | cons block blocks ih =>
    cases blocks with
    | nil => simp [stacked, joinWith]
    | cons next blocks =>
      have hrest := ih (by simp)
      rw [stacked, followed_stacked_cons, hrest, joinWith, joinWith, List.intercalate_cons_cons]
      simp

lemma joinWith_eq_nil_iff {separator : String} {pieces : List Chars} (h : [] ∉ pieces) :
    joinWith separator pieces = [] ↔ pieces = [] := by
  cases pieces with
  | nil => simp [joinWith]
  | cons piece pieces =>
    have hpiece : piece ≠ [] := by
      rintro rfl
      exact h List.mem_cons_self
    cases pieces with
    | nil => simpa [joinWith] using hpiece
    | cons next pieces => simp [joinWith, hpiece]

theorem layOut_eq_stacked {setting : Setting} {root : Node} {blocks : List Chars}
    (hblocks : (render setting root).toBlocks = blocks) (hne : [] ∉ blocks) :
    layOut setting root = stacked blocks := by
  have hempty : joinWith "\n\n" blocks = [] ↔ blocks = [] := joinWith_eq_nil_iff hne
  rw [layOut, hblocks]
  by_cases h : blocks = []
  · simp [h, joinWith, stacked]
  · rw [stacked_eq_joinWith h]
    simp [hempty, h]

lemma flow_map_block {texts : List Chars} (h : [] ∉ texts) :
    flow (texts.map fun text => .blocks [text]) = texts := by
  induction texts with
  | nil => rfl
  | cons text texts ih =>
    simp only [List.mem_cons, not_or] at h
    have htext : text ≠ [] := Ne.symm h.1
    have hrest : flowFrom [] (texts.map fun text => .blocks [text]) = texts := ih h.2
    simp [flow, flowFrom, nonempty, htext, hrest]

/-- A document whose parts are one block each is those blocks under each other. -/
theorem layOut_document {setting : Setting} {root : Node} (hroot : root.kind = .document)
    {texts : List Chars} (hne : [] ∉ texts)
    (hparts : renderAll { setting with inList := false } root.children =
      texts.map fun text => .blocks [text]) :
    layOut setting root = stacked texts := by
  obtain ⟨kind, props, children, span⟩ := root
  subst hroot
  have hblocks : render setting ⟨.document, props, children, span⟩ = .blocks texts := by
    change Rendered.blocks (flow (renderAll { setting with inList := false } children)) = _
    rw [hparts, flow_map_block hne]
  exact layOut_eq_stacked (by rw [hblocks, Rendered.toBlocks]) hne

lemma reachedAmong_eq_flatMap (inList : Bool) (nodes : List Node) :
    reachedAmong inList nodes = nodes.flatMap (reached inList) := by
  induction nodes with
  | nil => rfl
  | cons node nodes ih => rw [reachedAmong, ih, List.flatMap_cons]

lemma flatMap_reachedAmong_eq_nil {medium : Medium} {inList : Bool} {nodes : List Node}
    (h : ∀ node ∈ nodes, losses medium inList node = []) :
    (reachedAmong inList nodes).flatMap (noticesAt medium) = [] := by
  rw [reachedAmong_eq_flatMap, List.flatMap_assoc]
  exact List.flatMap_eq_nil_iff.2 h

/-- A document is laid out without a loss when each of its parts is. -/
lemma losses_document {medium : Medium} {root : Node} (hroot : root.kind = .document)
    (hparts : ∀ node ∈ root.children, losses medium false node = []) :
    losses medium false root = [] := by
  obtain ⟨kind, props, children, span⟩ := root
  subst hroot
  exact flatMap_reachedAmong_eq_nil hparts

lemma renderAll_eq_map (setting : Setting) (nodes : List Node) :
    renderAll setting nodes = nodes.map (render setting) := by
  induction nodes with
  | nil => rfl
  | cons node nodes ih => rw [renderAll, ih, List.map_cons]

/-- The options hold a text for between columns, or none is laid out there. -/
def Separates (options : WriteOptions) (root : Node) : Prop :=
  ∃ text, separatorFor root options = .ok text

lemma write_eq_output (medium : Medium) {doc : Document} {options : WriteOptions} {text : String}
    (h : separatorFor doc.content options = .ok text) :
    write medium doc options = .ok (output medium doc text) := by
  rw [write, h]
  rfl

lemma separatorFor_standard (root : Node) :
    separatorFor root .standard = .ok standardSeparator := by
  unfold separatorFor
  split <;> rfl

lemma write_standard (medium : Medium) (doc : Document) :
    write medium doc .standard = .ok (output medium doc standardSeparator) :=
  write_eq_output medium (separatorFor_standard doc.content)

lemma separates_standard (root : Node) : Separates .standard root :=
  ⟨standardSeparator, separatorFor_standard root⟩

/-- A table that is laid out is noted. -/
lemma separatorFor_of_losses_eq_nil {medium : Medium} {root : Node}
    (h : losses medium false root = []) (options : WriteOptions) :
    separatorFor root options = .ok standardSeparator := by
  have hnone : laysColumns root = false := by
    rw [laysColumns, List.any_eq_false]
    intro place hplace htable
    have hnotices : noticesAt medium place = [] := List.flatMap_eq_nil_iff.1 h place hplace
    have hrole : roleOf place.2.kind = .table := by simpa using (Bool.and_eq_true_iff.1 htable).1
    rw [noticesAt, ownNotices, hrole] at hnotices
    cases hnotices
  rw [separatorFor, hnone, if_neg Bool.false_ne_true]

/-- Writing fails exactly where columns are laid out and what the options hold for between them is
not a text. -/
theorem write_eq_error_iff {medium : Medium} {doc : Document} {options : WriteOptions}
    {error : WriteError} : write medium doc options = .error error ↔
      laysColumns doc.content = true ∧ ∃ value : Json,
        (Settings.merge writeSettings options.extra).getOr separatorName (.text standardSeparator) =
          value ∧ (∀ text, value ≠ .text text) ∧ error = .options (.notJoining value.kindName) := by
  cases hcolumns : laysColumns doc.content with
  | false =>
    have htext : separatorFor doc.content options = .ok standardSeparator := by
      rw [separatorFor, hcolumns, if_neg Bool.false_ne_true]
    simp [write_eq_output medium htext]
  | true =>
    rw [write, separatorFor, hcolumns, if_pos rfl, separator]
    cases (Settings.merge writeSettings options.extra).getOr separatorName
      (.text standardSeparator) <;>
      simp [Except.map, Except.mapError, eq_comm]

end Interchange.Layout
