import Interchange.Proofs.Word.Integrity
import Interchange.Proofs.Text.Paragraphs

/-!
# The order within a run

The elements of a run may come in any order, and their references to footnotes, pictures and
characters are marks that can be read off one after the other. The reader takes the run three times
and sorts the marks: it keeps their order exactly when they come sorted already.
-/
namespace Interchange

open Markup (Element)

/-- What an element of a run shows. -/
inductive RunMark where
  | reference (node : Node)
  | picture (node : Node)
  | letter (c : Char)
  | lineBreak

namespace RunMark

def ofChar (c : Char) : RunMark := if c = '\n' then .lineBreak else .letter c

/-- The pass in which a mark is read. -/
def pass : RunMark → ℕ
  | .reference _ => 0
  | .picture _ => 1
  | .letter _ => 2
  | .lineBreak => 2

@[simp] lemma pass_ofChar (c : Char) : (ofChar c).pass = 2 := by
  rw [ofChar]
  split <;> rfl

lemma pass_le_two (mark : RunMark) : mark.pass ≤ 2 := by cases mark <;> simp [pass]

/-- The marks that are read in a pass. -/
def inPass (n : ℕ) (marks : List RunMark) : List RunMark := marks.filter (·.pass = n)

/-- The marks, pass by pass. -/
def byPass (marks : List RunMark) : List RunMark :=
  inPass 0 marks ++ inPass 1 marks ++ inPass 2 marks

section

variable {n : ℕ} {mark : RunMark} {marks : List RunMark}

lemma inPass_append (n : ℕ) (marks others : List RunMark) :
    inPass n (marks ++ others) = inPass n marks ++ inPass n others := List.filter_append ..

lemma inPass_cons_self (h : mark.pass = n) : inPass n (mark :: marks) = mark :: inPass n marks :=
  List.filter_cons_of_pos (by simpa using h)

lemma inPass_cons_of_ne (h : mark.pass ≠ n) : inPass n (mark :: marks) = inPass n marks :=
  List.filter_cons_of_neg (by simpa using h)

lemma inPass_eq_self (h : ∀ mark ∈ marks, mark.pass = n) : inPass n marks = marks :=
  List.filter_eq_self.2 fun mark hmark => by simpa using h mark hmark

lemma inPass_eq_nil (h : ∀ mark ∈ marks, mark.pass ≠ n) : inPass n marks = [] :=
  List.filter_eq_nil_iff.2 fun mark hmark => by simpa using h mark hmark

lemma pass_of_mem_inPass (h : mark ∈ inPass n marks) : mark.pass = n := by
  simpa using (List.mem_filter.1 h).2

end

/-- Pass by pass the marks are sorted. -/
lemma pairwise_byPass (marks : List RunMark) :
    (byPass marks).Pairwise fun mark other => mark.pass ≤ other.pass := by
  have hown (n : ℕ) : (inPass n marks).Pairwise fun mark other => mark.pass ≤ other.pass :=
    List.pairwise_of_forall_mem_list fun mark hmark other hother => by
      rw [pass_of_mem_inPass hmark, pass_of_mem_inPass hother]
  refine List.pairwise_append.2 ⟨List.pairwise_append.2 ⟨hown 0, hown 1, ?_⟩, hown 2, ?_⟩
  · intro mark hmark other _
    rw [pass_of_mem_inPass hmark]
    exact Nat.zero_le _
  · intro mark _ other hother
    rw [pass_of_mem_inPass hother]
    exact pass_le_two mark

/-- The induction is on the marks; before the first one there is nothing of a later pass. -/
theorem byPass_eq_self_iff {marks : List RunMark} :
    byPass marks = marks ↔ marks.Pairwise fun mark other => mark.pass ≤ other.pass := by
  refine ⟨fun h => h ▸ pairwise_byPass marks, fun h => ?_⟩
  induction h with
  | nil => rfl
  | @cons mark marks hfirst _ ih =>
    have hnone (n : ℕ) (hn : n < mark.pass) : inPass n marks = [] :=
      inPass_eq_nil fun other hother => Nat.ne_of_gt (hn.trans_le (hfirst other hother))
    have hlast := pass_le_two mark
    rw [byPass] at ih ⊢
    interval_cases hpass : mark.pass
    · rw [inPass_cons_self hpass, inPass_cons_of_ne (by omega), inPass_cons_of_ne (by omega),
        List.cons_append, List.cons_append, ih]
    · rw [hnone 0 (by omega)] at ih
      rw [inPass_cons_of_ne (by omega), inPass_cons_self hpass, inPass_cons_of_ne (by omega),
        hnone 0 (by omega), List.nil_append, List.cons_append, ← List.nil_append (inPass 1 marks), ih]
    · rw [hnone 0 (by omega), hnone 1 (by omega)] at ih
      rw [inPass_cons_of_ne (by omega), inPass_cons_of_ne (by omega), inPass_cons_self hpass,
        hnone 0 (by omega), hnone 1 (by omega), List.nil_append]
      exact congrArg (mark :: ·) ih

end RunMark

namespace Node

/-- What a node shows itself. -/
def ownMarks (node : Node) : List RunMark :=
  match node.kind with
  | .footnoteRef => [.reference node]
  | .image => [.picture node]
  | .lineBreak => [.lineBreak]
  | _ => node.ownText.toList.map .letter

/-- What some nodes show, in the order of the document. -/
def marksOf (nodes : List Node) : List RunMark := (walkAll nodes).flatMap ownMarks

@[simp] lemma marksOf_nil : marksOf [] = [] := rfl

@[simp] lemma marksOf_append (nodes others : List Node) :
    marksOf (nodes ++ others) = marksOf nodes ++ marksOf others := by
  simp only [marksOf, walkAll_eq_flatMap, List.flatMap_append]

lemma marksOf_cons (node : Node) (nodes : List Node) :
    marksOf (node :: nodes) = marksOf [node] ++ marksOf nodes := marksOf_append [node] nodes

lemma marksOf_singleton (node : Node) : marksOf [node] = node.ownMarks ++ marksOf node.children := by
  rw [marksOf, walkAll_singleton, walk_eq, List.flatMap_cons]
  rfl

lemma marksOf_text (content : String) : marksOf [text content] = content.toList.map .letter := by
  rw [marksOf_singleton]
  exact List.append_nil _

lemma marksOf_image (url alt resource : Option String) :
    marksOf [image url alt resource] = [.picture (image url alt resource)] := by
  cases url <;> cases alt <;> cases resource <;> rfl

end Node

namespace Word

open Finding RunMark Node

variable {source : Source}

namespace Inline

/-- The data of the pictures in an element. -/
def blips (element : Element) : List Element :=
  (element :: element.descendants).filter (·.name = drawing "blip")

/-- The reference that an element is, if it is one to a footnote that there is. -/
def referenceMark (source : Source) (element : Element) : List RunMark :=
  if element.name = w "footnoteReference" then
    ((footnoteRef? source element).map .reference).toList
  else []

/-- What an element directly in a run shows: a reference or its characters, then the pictures that
are inside of it. -/
def shown (source : Source) (run element : Element) : Finding (List RunMark) := do
  let pictures ← (blips element).mapM (picture source run)
  pure (referenceMark source element ++ (piece element).toList.map .ofChar ++
    pictures.map .picture)

/-- What a run shows, in the order of its elements. -/
def shownInOrder (source : Source) (run : Element) : Finding (List RunMark) := do
  let parts ← run.children.mapM (shown source run)
  pure parts.flatten

lemma deep_blip (run : Element) : run.deep (drawing "blip") = run.children.flatMap blips := by
  obtain ⟨name, attributes, content⟩ := run
  rw [Element.deep, Element.descendants, Element.children]
  induction content with
  | nil => rfl
  | cons item items ih =>
    cases item with
    | element e =>
      rw [Element.descendantsIn, List.filter_append, ih]
      rfl
    | text s => exact ih

lemma referenceMark_pass (element : Element) :
    ∀ mark ∈ referenceMark source element, mark.pass = 0 := by
  intro mark hmark
  rw [referenceMark] at hmark
  split at hmark
  · obtain ⟨node, -, rfl⟩ := Option.map_eq_some_iff.1 (Option.mem_toList.1 hmark)
    rfl
  · cases hmark

/-- What an element shows, pass by pass. -/
lemma inPass_shown (source : Source) (element : Element) (pictures : List Node) :
    let marks := referenceMark source element ++ (piece element).toList.map .ofChar ++
      pictures.map .picture
    inPass 0 marks = referenceMark source element ∧ inPass 1 marks = pictures.map .picture ∧
      inPass 2 marks = (piece element).toList.map .ofChar := by
  have hreference : ∀ mark ∈ referenceMark source element, mark.pass = 0 :=
    referenceMark_pass element
  have hpicture : ∀ mark ∈ pictures.map RunMark.picture, mark.pass = 1 :=
    List.forall_mem_map.2 fun _ _ => rfl
  have hchars : ∀ mark ∈ (piece element).toList.map ofChar, mark.pass = 2 :=
    List.forall_mem_map.2 fun c _ => pass_ofChar c
  have hnone {n m : ℕ} {marks : List RunMark} (h : ∀ mark ∈ marks, mark.pass = n) (hne : n ≠ m) :
      inPass m marks = [] := inPass_eq_nil fun mark hmark => by rwa [h mark hmark]
  simp only [inPass_append]
  refine ⟨?_, ?_, ?_⟩
  · rw [inPass_eq_self hreference, hnone hchars (by decide), hnone hpicture (by decide),
      List.append_nil, List.append_nil]
  · rw [inPass_eq_self hpicture, hnone hreference (by decide), hnone hchars (by decide),
      List.nil_append, List.nil_append]
  · rw [inPass_eq_self hchars, hnone hreference (by decide), hnone hpicture (by decide),
      List.nil_append, List.append_nil]

/-- The pictures of all elements are found in the order of the elements; the induction is on
these. -/
lemma exists_shown {run : Element} {elements : List Element} {before after : Findings}
    {pictures : List Node}
    (h : (elements.flatMap blips).mapM (picture source run) before = some (pictures, after)) :
    ∃ parts, elements.mapM (shown source run) before = some (parts, after) ∧
      inPass 0 parts.flatten = elements.flatMap (referenceMark source) ∧
      inPass 1 parts.flatten = pictures.map .picture ∧
      inPass 2 parts.flatten = (elements.flatMap fun e => (piece e).toList).map .ofChar := by
  induction elements generalizing before pictures with
  | nil =>
    obtain ⟨rfl, rfl⟩ := Prod.mk.inj (Option.some.inj h)
    exact ⟨[], rfl, rfl, rfl, rfl⟩
  | cons element elements ih =>
    rw [List.flatMap_cons, List.mapM_append] at h
    obtain ⟨own, middle, hown, h⟩ := bind_eq_some h
    obtain ⟨others, last, hothers, h⟩ := bind_eq_some h
    obtain ⟨rfl, rfl⟩ := Prod.mk.inj (Option.some.inj h)
    obtain ⟨parts, hparts, hreferences, hpictures, hchars⟩ := ih hothers
    obtain ⟨hreference, hpicture, hchar⟩ := inPass_shown source element own
    have hshown : shown source run element before = some (referenceMark source element ++
        (piece element).toList.map .ofChar ++ own.map .picture, middle) :=
      bind_of_eq_some hown rfl
    have hall : (element :: elements).mapM (shown source run) before = some ((referenceMark source
        element ++ (piece element).toList.map .ofChar ++ own.map .picture) :: parts, last) := by
      rw [List.mapM_cons]
      exact bind_of_eq_some hshown (bind_of_eq_some hparts rfl)
    refine ⟨_, hall, ?_, ?_, ?_⟩
    · rw [List.flatten_cons, inPass_append, hreference, hreferences, List.flatMap_cons]
    · rw [List.flatten_cons, inPass_append, hpicture, hpictures, List.map_append]
    · rw [List.flatten_cons, inPass_append, hchar, hchars, List.flatMap_cons, List.map_append]

lemma marksOf_of_footnoteRef? {reference : Element} {node : Node}
    (h : footnoteRef? source reference = some node) : marksOf [node] = [.reference node] := by
  rw [footnoteRef?] at h
  obtain ⟨text, -, h⟩ := Option.bind_eq_some_iff.1 h
  obtain ⟨number, -, h⟩ := Option.bind_eq_some_iff.1 h
  obtain ⟨label, -, h⟩ := Option.bind_eq_some_iff.1 h
  rw [← Option.some.inj h]
  rfl

lemma marksOf_references (elements : List Element) :
    marksOf ((elements.filter (·.name = w "footnoteReference")).filterMap (footnoteRef? source)) =
      elements.flatMap (referenceMark source) := by
  induction elements with
  | nil => rfl
  | cons element elements ih =>
    rw [List.flatMap_cons, referenceMark]
    split
    · next hname =>
      rw [List.filter_cons_of_pos (by simpa using hname), List.filterMap_cons]
      cases hnode : footnoteRef? source element with
      | none => exact ih
      | some node =>
        rw [marksOf_cons, marksOf_of_footnoteRef? hnode, ih]
        rfl
    · next hname =>
      rw [List.filter_cons_of_neg (by simpa using hname), ih, List.nil_append]

lemma gives_marked_picture (run blip : Element) :
    Gives (picture source run blip) fun node => marksOf [node] = [.picture node] := by
  unfold picture
  dsimp only
  split
  · exact (gives_note _).bind fun _ _ => gives_pure (marksOf_image _ _ _)
  · split
    · exact (gives_embed _).bind fun _ _ => gives_pure (marksOf_image _ _ _)
    · exact (gives_note _).bind fun _ _ => gives_pure (marksOf_image _ _ _)

lemma marksOf_pictures {pictures : List Node}
    (h : ∀ node ∈ pictures, marksOf [node] = [.picture node]) :
    marksOf pictures = pictures.map .picture := by
  induction pictures with
  | nil => rfl
  | cons node pictures ih =>
    obtain ⟨hnode, hpictures⟩ := List.forall_mem_cons.1 h
    rw [marksOf_cons, hnode, ih hpictures]
    rfl

lemma marksOf_of_wraps {content : String} {node : Node} (h : Font.Wraps content node) :
    marksOf [node] = content.toList.map .letter := by
  induction h with
  | text => exact marksOf_text content
  | @wrapper kind node hkind _ ih =>
    have hown : (branch kind [node]).ownMarks = [] := by
      fin_cases hkind <;> rfl
    rw [marksOf_singleton, hown]
    exact ih

lemma ShowsLine.marksOf_eq {line : List Char} {part : List Node} (h : ShowsLine line part) :
    marksOf part = line.map .letter := by
  cases h with
  | empty => rfl
  | text h => rw [marksOf_of_wraps h, String.toList_ofList]

/-- The lines of a text, and the breaks between them, are its characters. -/
lemma marksOf_lineNodes {run : Element} {cs : List Char} {nodes : List Node}
    (h : lineNodes run (Text.splitAt '\n' cs) = some nodes) : marksOf nodes = cs.map .ofChar := by
  have hbreak : marksOf [.lineBreak] = ['\n'].map .ofChar := rfl
  have hletters : (Text.splitAt '\n' cs).map (List.map RunMark.letter) =
      (Text.splitAt '\n' cs).map (List.map .ofChar) := by
    refine List.map_congr_left fun line hline => List.map_congr_left fun c hc => ?_
    have hne : c ≠ '\n' := fun heq => Text.notMem_of_mem_splitAt hline (heq ▸ hc)
    rw [RunMark.ofChar, if_neg hne]
  rw [taken_of_lineNodes marksOf_nil marksOf_append (fun _ _ h => h.marksOf_eq) h, hbreak, hletters,
    ← Text.map_intercalate List.map_nil (fun _ _ => List.map_append), Text.intercalate_splitAt]

/-- What a run results in, when its pictures are found. -/
lemma exists_of_run {run : Element} {before after : Findings} {nodes : List Node}
    (h : Inline.run source run before = some (nodes, after)) : ∃ pictures middle lines,
      (run.deep (drawing "blip")).mapM (picture source run) before = some (pictures, middle) ∧
      lineNodes run (Text.splitAt '\n' (runText run).toList) = some lines ∧
      nodes = (run.named (w "footnoteReference")).filterMap (footnoteRef? source) ++ pictures ++
        lines := by
  rw [Inline.run] at h
  obtain ⟨pictures, middle, hpictures, h⟩ := bind_eq_some h
  obtain ⟨own, later, -, h⟩ := bind_eq_some h
  have hlast {findings : Findings} (h : (do
      let lines ← need (lineNodes run (Text.splitAt '\n' (runText run).toList))
      pure ((run.named (w "footnoteReference")).filterMap (footnoteRef? source) ++ pictures ++
        lines)) findings = some (nodes, after)) : ∃ lines,
      lineNodes run (Text.splitAt '\n' (runText run).toList) = some lines ∧
      nodes = (run.named (w "footnoteReference")).filterMap (footnoteRef? source) ++ pictures ++
        lines := by
    obtain ⟨lines, last, hlines, h⟩ := bind_eq_some h
    obtain ⟨rfl, -⟩ := Prod.mk.inj (Option.some.inj h)
    exact ⟨lines, (need_eq_some hlines).1, rfl⟩
  refine ⟨pictures, middle, ?_⟩
  dsimp only at h
  split at h
  · obtain ⟨_, _, -, h⟩ := bind_eq_some h
    obtain ⟨lines, hlines, hnodes⟩ := hlast h
    exact ⟨lines, hpictures, hlines, hnodes⟩
  · obtain ⟨lines, hlines, hnodes⟩ := hlast h
    exact ⟨lines, hpictures, hlines, hnodes⟩

/-- The reader sorts what a run shows: references first, then pictures, then characters and line
breaks. So a run is read in order exactly when nothing in it stands before a part of an earlier
pass. -/
theorem run_keeps_order_iff (source : Source) (run : Element) (before after : Findings)
    (nodes : List Node) (h : Inline.run source run before = some (nodes, after)) :
    ∃ marks middle, shownInOrder source run before = some (marks, middle) ∧
      marksOf nodes = byPass marks ∧
      (marksOf nodes = marks ↔ marks.Pairwise fun mark other => mark.pass ≤ other.pass) := by
  obtain ⟨pictures, middle, lines, hpictures, hlines, rfl⟩ := exists_of_run h
  obtain ⟨hkinds, -⟩ := gives_mapM_forall (gives_marked_picture run) _ before pictures middle hpictures
  rw [deep_blip] at hpictures
  obtain ⟨parts, hparts, hreferences, hmiddle, hchars⟩ := exists_shown hpictures
  have hsorted : marksOf ((run.named (w "footnoteReference")).filterMap (footnoteRef? source) ++
      pictures ++ lines) = byPass parts.flatten := by
    rw [marksOf_append, marksOf_append, Element.named, marksOf_references, marksOf_pictures hkinds,
      marksOf_lineNodes hlines, runText, toList_join_map, byPass, hreferences, hmiddle, hchars]
  exact ⟨parts.flatten, middle, bind_of_eq_some hparts rfl, hsorted,
    hsorted ▸ byPass_eq_self_iff⟩

section

/-- A source with nothing in it but the footnotes of some labels. -/
def sourceOf (labels : List (Int × String)) : Source :=
  ⟨ofBody (.leaf (w "body")), none, labels, true⟩

/-- What is shown by a run that is read, by computation. -/
lemma exists_run {source : Source} {run : Element} {P : List Node → Prop} [DecidablePred P]
    (h : (Inline.run source run .none).map (fun result => decide (P result.1)) = some true) :
    ∃ nodes after, Inline.run source run .none = some (nodes, after) ∧ P nodes := by
  obtain ⟨⟨nodes, after⟩, hrun, hproperty⟩ := Option.map_eq_some_iff.1 h
  exact ⟨nodes, after, hrun, of_decide_eq_true hproperty⟩

/-- Text with a tab and a break, a picture in a drawing, a reference, text again, and a reference to
a footnote that there is not. -/
theorem run_keeps_order_drawn :
    let run : Element := .branch (w "r") [.ofText (w "t") "a", .leaf (w "tab"), .leaf (w "br"),
      .branch (w "drawing") [.leaf (drawing "blip") [⟨r "embed", "rId1"⟩]],
      .leaf (w "footnoteReference") [⟨w "id", "7"⟩], .ofText (w "t") "b",
      .leaf (w "footnoteReference") [⟨w "id", "8"⟩]]
    ∃ nodes after marks middle, Inline.run (sourceOf [(7, "1")]) run .none = some (nodes, after) ∧
      (marksOf nodes).map pass = [0, 1, 2, 2, 2, 2] ∧
      shownInOrder (sourceOf [(7, "1")]) run .none = some (marks, middle) ∧
      marksOf nodes = byPass marks ∧
      (marksOf nodes = marks ↔ marks.Pairwise fun mark other => mark.pass ≤ other.pass) := by
  intro run
  obtain ⟨nodes, after, hrun, hpasses⟩ : ∃ nodes after,
      Inline.run (sourceOf [(7, "1")]) run .none = some (nodes, after) ∧
      (marksOf nodes).map pass = [0, 1, 2, 2, 2, 2] := exists_run (by decide +kernel)
  obtain ⟨marks, middle, hmarks, hsorted, hiff⟩ := run_keeps_order_iff _ _ _ _ _ hrun
  exact ⟨nodes, after, marks, middle, hrun, hpasses, hmarks, hsorted, hiff⟩

/-- A reference comes before the text that it stands behind. -/
theorem not_run_keeps_order_cited :
    let run : Element := .branch (w "r") [.ofText (w "t") "a",
      .leaf (w "footnoteReference") [⟨w "id", "7"⟩]]
    ∃ nodes after marks middle, Inline.run (sourceOf [(7, "1")]) run .none = some (nodes, after) ∧
      nodes.map Node.kind = [.footnoteRef, .text] ∧
      shownInOrder (sourceOf [(7, "1")]) run .none = some (marks, middle) ∧
      marks = [.letter 'a', .reference (.footnoteRef "1")] ∧ marksOf nodes ≠ marks := by
  intro run
  obtain ⟨nodes, after, hrun, hkinds, hpasses⟩ : ∃ nodes after,
      Inline.run (sourceOf [(7, "1")]) run .none = some (nodes, after) ∧
      nodes.map Node.kind = [.footnoteRef, .text] ∧ (marksOf nodes).map pass = [0, 2] :=
    exists_run (by decide +kernel)
  refine ⟨nodes, after, _, .none, hrun, hkinds, rfl, rfl, fun hmarks => ?_⟩
  rw [hmarks] at hpasses
  cases hpasses

end

end Inline

end Word

end Interchange
