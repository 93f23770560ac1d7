import Interchange.Proofs.Text.Words
import Interchange.Word.Inline

/-!
# The lines of a run

The nodes of a run's text are its lines, each a text in wrappers for the style of the run or nothing
at all, with a break between one line and the next.
-/
namespace Interchange.Word

open Markup (Element)

namespace Font

/-- The kinds of the nodes that stand around a text for its style. -/
def wrappers : List Kind := [.superscript, .subscript, .smallCaps] ++ StyleFlag.all.map (·.kind)

/-- A text alone, or in wrappers around each other. -/
inductive Wraps (content : String) : Node → Prop where
  | text : Wraps content (.text content)
  | wrapper {kind : Kind} {node : Node} (h : kind ∈ wrappers) (rest : Wraps content node) :
    Wraps content (.branch kind [node])

variable {content : String} {node : Node}

lemma Wraps.styled (h : Wraps content node) (style : TextStyle) :
    Wraps content (node.styled style) := by
  rw [Node.styled]
  induction StyleFlag.wrapOrder generalizing node with
  | nil => exact h
  | cons flag flags ih =>
    rw [List.foldl_cons]
    refine ih ?_
    split
    · exact .wrapper (by cases flag <;> decide) h
    · exact h

theorem wraps_of_styled? {run : Element} (h : styled? run content = some node) :
    Wraps content node := by
  rw [styled?] at h
  obtain ⟨script, -, h⟩ := Option.bind_eq_some_iff.1 h
  obtain ⟨smallCaps, -, h⟩ := Option.bind_eq_some_iff.1 h
  obtain ⟨style, -, h⟩ := Option.bind_eq_some_iff.1 h
  have hraised {script : Script} : Wraps content (.branch script.kind [.text content]) :=
    .wrapper (by cases script <;> decide) .text
  rw [← Option.some.inj h]
  refine Wraps.styled ?_ style
  cases smallCaps <;> cases script
  · exact .text
  · exact hraised
  · exact .wrapper (by decide) .text
  · exact .wrapper (by decide) hraised

end Font

namespace Inline

/-- A line is shown by its text in wrappers, and an empty one by nothing. -/
inductive ShowsLine : List Char → List Node → Prop where
  | empty : ShowsLine [] []
  | text {line : List Char} {node : Node} (h : Font.Wraps (String.ofList line) node) :
    ShowsLine line [node]

/-- The induction is on the lines; the last one has no break behind it. -/
theorem exists_of_lineNodes {run : Element} {lines : List (List Char)} {nodes : List Node}
    (h : lineNodes run lines = some nodes) :
    ∃ parts, List.Forall₂ ShowsLine lines parts ∧ nodes = List.intercalate [.lineBreak] parts := by
  induction lines generalizing nodes with
  | nil => exact ⟨[], .nil, (Option.some.inj h).symm⟩
  | cons line lines ih =>
    obtain ⟨own, others, hown, hothers, rfl⟩ : ∃ own others, ShowsLine line own ∧
        lineNodes run lines = some others ∧
        nodes = if lines.isEmpty then own else own ++ .lineBreak :: others := by
      rw [lineNodes] at h
      split at h
      · next hempty =>
        obtain ⟨own, hown, h⟩ := Option.bind_eq_some_iff.1 h
        obtain ⟨others, hothers, h⟩ := Option.bind_eq_some_iff.1 h
        refine ⟨own, others, ?_, hothers, (Option.some.inj h).symm⟩
        rw [List.isEmpty_iff.1 hempty, ← Option.some.inj hown]
        exact .empty
      · obtain ⟨own, hown, h⟩ := Option.bind_eq_some_iff.1 h
        obtain ⟨others, hothers, h⟩ := Option.bind_eq_some_iff.1 h
        obtain ⟨node, hnode, rfl⟩ := Option.map_eq_some_iff.1 hown
        exact ⟨[node], others, .text (Font.wraps_of_styled? hnode), hothers,
          (Option.some.inj h).symm⟩
    obtain ⟨parts, hparts, rfl⟩ := ih hothers
    refine ⟨own :: parts, .cons hown hparts, ?_⟩
    cases hparts with
    | nil => rw [List.isEmpty_nil, if_pos rfl, List.intercalate_singleton]
    | cons hnext hrest =>
      rw [List.intercalate_cons_cons, List.isEmpty_cons, if_neg Bool.false_ne_true,
        List.append_assoc]
      rfl

/-- What is taken from the nodes of lines one by one is what each line gives, with what a break gives
between one line and the next. -/
theorem taken_of_lineNodes {β : Type} {take : List Node → List β} {give : List Char → List β}
    (hnil : take [] = []) (happend : ∀ front back, take (front ++ back) = take front ++ take back)
    (hline : ∀ line part, ShowsLine line part → take part = give line) {run : Element}
    {lines : List (List Char)} {nodes : List Node} (h : lineNodes run lines = some nodes) :
    take nodes = List.intercalate (take [.lineBreak]) (lines.map give) := by
  obtain ⟨parts, hparts, rfl⟩ := exists_of_lineNodes h
  rw [Text.map_intercalate hnil happend]
  congr 1
  clear h
  induction hparts with
  | nil => rfl
  | cons hpart _ ih => rw [List.map_cons, List.map_cons, hline _ _ hpart, ih]

end Inline

end Interchange.Word
