import Interchange.Document.Builders
import Mathlib.Tactic

/-!
# The styles around each character

Every character of a tree stands in the styles of the nodes around it. How those nodes are nested,
or how often a style is repeated, makes no difference to what is shown.
-/
namespace Interchange

namespace StyleFlag

@[simp] lemma ofKind?_kind (flag : StyleFlag) : ofKind? flag.kind = some flag := by
  cases flag <;> rfl

end StyleFlag

namespace TextStyle

lemma set_of_get {style : TextStyle} {flag : StyleFlag} {on : Bool} (h : style.get flag = on) :
    style.set flag on = style := by
  refine ext_get fun other => ?_
  rw [get_set]
  split
  · next hflag => rw [← hflag, h]
  · rfl

lemma set_set (style : TextStyle) (flag : StyleFlag) (on off : Bool) :
    (style.set flag on).set flag off = style.set flag off := by
  refine ext_get fun other => ?_
  simp only [get_set]
  split <;> rfl

/-- The style inside a node of the given kind. -/
def within (style : TextStyle) (kind : Kind) : TextStyle :=
  match StyleFlag.ofKind? kind with
  | some flag => style.set flag true
  | none => style

@[simp] lemma within_kind (style : TextStyle) (flag : StyleFlag) :
    style.within flag.kind = style.set flag true := by
  rw [within, StyleFlag.ofKind?_kind]

end TextStyle

namespace Node

mutual

/-- The characters of the texts in a node, each with the styles around it. -/
def styledChars (style : TextStyle) : Node → List (Char × TextStyle)
  | node@⟨kind, _, children, _⟩ =>
    node.ownText.toList.map (·, style) ++ styledCharsAmong (style.within kind) children

def styledCharsAmong (style : TextStyle) : List Node → List (Char × TextStyle)
  | [] => []
  | node :: nodes => styledChars style node ++ styledCharsAmong style nodes

end

lemma styledChars_eq (style : TextStyle) (node : Node) :
    node.styledChars style = node.ownText.toList.map (·, style) ++
      styledCharsAmong (style.within node.kind) node.children := by
  cases node
  rfl

lemma styledCharsAmong_eq_flatMap (style : TextStyle) (nodes : List Node) :
    styledCharsAmong style nodes = nodes.flatMap (styledChars style) := by
  induction nodes with
  | nil => rfl
  | cons node nodes ih => rw [styledCharsAmong, ih, List.flatMap_cons]

mutual

/-- Without their styles the characters are the text. -/
theorem map_fst_styledChars (style : TextStyle) : ∀ node : Node,
    (node.styledChars style).map Prod.fst = node.textContent.toList
  | ⟨kind, props, children, span⟩ => by
    have hchildren := map_fst_styledCharsAmong (style.within kind) children
    rw [styledChars, textContent_eq, List.map_append, hchildren, String.toList_append, List.map_map]
    congr 1
    exact List.map_id _

theorem map_fst_styledCharsAmong (style : TextStyle) : ∀ nodes : List Node,
    (styledCharsAmong style nodes).map Prod.fst = (textContents nodes).toList
  | [] => rfl
  | node :: nodes => by
    rw [styledCharsAmong, textContents, List.map_append, map_fst_styledChars style node,
      map_fst_styledCharsAmong style nodes, String.toList_append]

end

lemma textContents_eq_flatMap (nodes : List Node) :
    (textContents nodes).toList = nodes.flatMap fun node => node.textContent.toList := by
  induction nodes with
  | nil => rfl
  | cons node nodes ih => rw [textContents, String.toList_append, ih, List.flatMap_cons]

/-- What a part says, the whole says. -/
lemma mem_textContent_of_mem_children {node part : Node} (h : part ∈ node.children) {c : Char}
    (hc : c ∈ part.textContent.toList) : c ∈ node.textContent.toList := by
  rw [textContent_eq, String.toList_append, textContents_eq_flatMap]
  exact List.mem_append_right _ (List.mem_flatMap.2 ⟨part, h, hc⟩)

lemma ownText_text (content : String) : (text content).ownText = content := rfl

/-- However the wrappers of a style are nested, what is in them has that style. -/
theorem styledChars_styled_text (style : TextStyle) (content : String) :
    (Node.styled style (.text content)).styledChars .plain = content.toList.map (·, style) := by
  have plain (base : TextStyle) : (Node.text content).styledChars base =
      content.toList.map (·, base) := by
    rw [styledChars_eq, ownText_text]
    exact List.append_nil _
  have wrapped (base : TextStyle) (flag : StyleFlag) (node : Node) :
      (branch flag.kind [node]).styledChars base = node.styledChars (base.set flag true) := by
    have hown : (branch flag.kind [node]).ownText = "" := by cases flag <;> rfl
    have hkind : (branch flag.kind [node]).kind = flag.kind := rfl
    rw [styledChars_eq, hown, hkind, TextStyle.within_kind]
    exact List.append_nil _
  obtain ⟨bold, italic, underline, strikethrough⟩ := style
  cases bold <;> cases italic <;> cases underline <;> cases strikethrough <;>
    simp [styled, StyleFlag.wrapOrder, TextStyle.get, wrapped, plain, TextStyle.set,
      TextStyle.plain]

/-- A text, or a node of one of the four styles around such nodes. -/
inductive IsStyledText : Node → Prop
  | text {node : Node} (kind : node.kind = .text) (leaf : node.children = []) : IsStyledText node
  | styled {node : Node} (flag : StyleFlag) (kind : node.kind = flag.kind)
      (parts : ∀ part ∈ node.children, IsStyledText part) : IsStyledText node

end Node

end Interchange
