import Interchange.Proofs.Word.Carrying

/-!
# Text that a read package keeps

A package that is read keeps the text that is within reach of the reader, whatever is noted. What is
typed elsewhere in the body, below an insertion or a content control for example, is passed over
without a warning.
-/
namespace Interchange.Word

open Finding Node
open Markup (Element)
open Text (Keeps letters)

variable {package : Package} {options : ReadOptions}

lemma gives_passOver (sections : List Element) :
    Gives (passOver package sections) fun _ => True := by
  have hheaders : Gives (do
      if ← need (Section.showsAny? package sections) then
        lost "headers and footers" "Page headers and footers are not carried over") fun _ => True := by
    refine (gives_need fun _ _ => trivial).bind fun shown _ => ?_
    split
    · exact gives_note _
    · exact gives_pure trivial
  unfold passOver
  dsimp only
  split
  · exact (gives_note _).bind fun _ _ => hheaders
  · exact hheaders

lemma notices_of_forM_note {notices : List Notice} {before after : Findings} {result : Unit}
    (h : notices.forM note before = some (result, after)) :
    after.notices = before.notices ++ notices := by
  induction notices generalizing before with
  | nil =>
    obtain ⟨-, rfl⟩ := Prod.mk.inj (Option.some.inj h)
    exact (List.append_nil _).symm
  | cons notice notices ih =>
    have hsteps : (notice :: notices).forM note = note notice >>= fun _ => notices.forM note := rfl
    rw [hsteps] at h
    obtain ⟨_, middle, hfirst, hrest⟩ := bind_eq_some h
    obtain ⟨-, rfl⟩ := Prod.mk.inj (Option.some.inj hfirst)
    rw [ih hrest, List.append_assoc]
    rfl

/-- The blocks are those of the body with the footnotes behind them, and these are noted. -/
theorem blocks_eq_some {root : Element} {footnotes : List Footnote} {embeds : Bool}
    {before after : Findings} {nodes : List Node}
    (h : blocks package root footnotes embeds before = some (nodes, after)) :
    ∃ body found, root.first? (w "body") = some body ∧
      nodes = found ++ Footnote.definitions footnotes ∧
      Tells body (Reach.body body) (textContents found).toList ∧
      (before.notices ++ Footnote.notices footnotes) <+: after.notices := by
  obtain ⟨_, middle, hnoted, hrest⟩ := bind_eq_some h
  have hblocks : Gives (do
      passOver package (Section.ofDocument root)
      let body ← need (root.first? (w "body"))
      let found ← Body.blocks (package.source footnotes embeds) body
      pure (found ++ Footnote.definitions footnotes)) fun nodes =>
        ∃ body found, root.first? (w "body") = some body ∧
          nodes = found ++ Footnote.definitions footnotes ∧
          Tells body (Reach.body body) (textContents found).toList :=
    (gives_passOver _).bind fun _ _ => (gives_need fun body hbody => hbody).bind fun body hbody =>
      (Body.gives_blocks body).bind fun found hfound => gives_pure ⟨body, found, hbody, rfl, hfound⟩
  obtain ⟨⟨body, found, hbody, hnodes, htells⟩, hkept⟩ := hblocks middle nodes after hrest
  rw [notices_of_forM_note hnoted] at hkept
  exact ⟨body, found, hbody, hnodes, htells, hkept⟩

/-- The blocks are those of the body with the footnotes behind them. -/
lemma body_of_blocks {root : Element} {footnotes : List Footnote} {embeds : Bool}
    {before after : Findings} {nodes : List Node}
    (h : blocks package root footnotes embeds before = some (nodes, after)) :
    ∃ body found middle, root.first? (w "body") = some body ∧
      Body.blocks (package.source footnotes embeds) body middle = some (found, after) ∧
      nodes = found ++ Footnote.definitions footnotes := by
  obtain ⟨_, _, -, hnoted⟩ := bind_eq_some h
  obtain ⟨_, passed, -, hpassed⟩ := bind_eq_some hnoted
  obtain ⟨body, middle, hneed, hread⟩ := bind_eq_some hpassed
  obtain ⟨found, last, hfound, hlast⟩ := bind_eq_some hread
  obtain ⟨body', hbody, hpair⟩ := Option.map_eq_some_iff.1 hneed
  obtain ⟨rfl, rfl⟩ := Prod.mk.inj hpair
  obtain ⟨rfl, rfl⟩ := Prod.mk.inj (Option.some.inj hlast)
  exact ⟨body', found, passed, hbody, hfound, rfl⟩

lemma footnotes_eq_nil {footnotes : List Footnote} {before : List Notice}
    (h : (before ++ Footnote.notices footnotes) <+: []) : footnotes = [] := by
  have hnone := (List.append_eq_nil_iff.1 (List.prefix_nil.1 h)).2
  cases footnotes with
  | nil => rfl
  | cons footnote footnotes => simp [Footnote.notices] at hnone

/-- What a document and its warnings come from, with the footnotes of the package. -/
lemma parts_of_read {outcome : Outcome Document} (h : read package options = .ok outcome) :
    ∃ root footnotes nodes findings, package.main.root? = some root ∧
      Footnote.ofPackage? package = some footnotes ∧
      blocks package root footnotes options.embeds .none = some (nodes, findings) ∧
      outcome.value.content = .document nodes ∧
      outcome.value.resources = findings.resources ∧
      outcome.warnings = Notice.settle findings.notices := by
  rw [read] at h
  split at h
  · next outcome' hread =>
    obtain ⟨root, hroot, hread⟩ := Option.bind_eq_some_iff.1 hread
    obtain ⟨footnotes, hfootnotes, hread⟩ := Option.bind_eq_some_iff.1 hread
    obtain ⟨⟨nodes, findings⟩, hblocks, hread⟩ := Option.bind_eq_some_iff.1 hread
    obtain ⟨core, -, hread⟩ := Option.bind_eq_some_iff.1 hread
    obtain ⟨layout, -, hread⟩ := Option.bind_eq_some_iff.1 hread
    rw [← Except.ok.inj h, ← Option.some.inj hread]
    exact ⟨root, footnotes, nodes, findings, hroot, hfootnotes, hblocks, rfl, rfl, rfl⟩
  · simp at h

/-- What a document and its warnings come from. -/
lemma findings_of_read {outcome : Outcome Document} (h : read package options = .ok outcome) :
    ∃ root footnotes nodes findings, package.main.root? = some root ∧
      blocks package root footnotes options.embeds .none = some (nodes, findings) ∧
      outcome.value.content = .document nodes ∧
      outcome.value.resources = findings.resources ∧
      outcome.warnings = Notice.settle findings.notices := by
  obtain ⟨root, footnotes, nodes, findings, hroot, -, hrest⟩ := parts_of_read h
  exact ⟨root, footnotes, nodes, findings, hroot, hrest⟩

/-- What the content and the warnings of a document come from. -/
lemma blocks_of_read {outcome : Outcome Document} (h : read package options = .ok outcome) :
    ∃ root footnotes nodes findings, package.main.root? = some root ∧
      blocks package root footnotes options.embeds .none = some (nodes, findings) ∧
      outcome.value.content = .document nodes ∧
      outcome.warnings = Notice.settle findings.notices := by
  obtain ⟨root, footnotes, nodes, findings, hroot, hblocks, hcontent, -, hwarnings⟩ :=
    findings_of_read h
  exact ⟨root, footnotes, nodes, findings, hroot, hblocks, hcontent, hwarnings⟩

/-- A package that is read without a warning keeps all letters typed in its body, if they are within
the reach of the reader. Where the text stands for itself, a letter out of reach is lost. -/
theorem read_keeps_typed {doc : Document} (h : read package options = .ok ⟨doc, []⟩) :
    ∃ root body, package.main.root? = some root ∧ root.first? (w "body") = some body ∧
      (letters (typed body) = letters (Reach.body body) →
        Keeps (typed body) doc.content.textContent.toList) ∧
      (StandsForItself body → Keeps (typed body) doc.content.textContent.toList →
        letters (typed body) = letters (Reach.body body)) := by
  obtain ⟨root, footnotes, nodes, findings, hroot, hblocks, hcontent, hwarnings⟩ := blocks_of_read h
  obtain ⟨body, found, hbody, rfl, htells, hkept⟩ := blocks_eq_some hblocks
  rw [Notice.settle_eq_nil_iff.1 hwarnings.symm] at hkept
  obtain rfl := footnotes_eq_nil hkept
  have hletters : letters doc.content.textContent.toList = letters (textContents found).toList := by
    have hnone : Footnote.definitions [] = [] := rfl
    rw [hcontent, hnone, List.append_nil]
    exact lettersOf_children rfl
  have htold := htells.of_letters hletters
  refine ⟨root, body, hroot, hbody, fun hreach => ?_, fun hself hkeeps => ?_⟩
  · exact (Keeps.of_letters_eq hreach).trans htold.keeps
  · have htyped := Text.keeps_iff.1 hkeeps
    rw [htold.exact hself] at htyped
    exact htyped.antisymm ((Reach.body_sublist_typed body).filter _)

/-- A package that has a body and nothing else. -/
def ofBody (body : Element) : Package :=
  ⟨[], [], ⟨"/word/document.xml", mainType, .markup (.branch (w "document") [body]), []⟩⟩

/-- What is read without a warning, by computation. -/
lemma exists_read {P : Document → Prop} [DecidablePred P]
    (h : (document? package options).map (fun outcome => (outcome.warnings, decide (P outcome.value))) =
      some ([], true)) : ∃ doc, read package options = .ok ⟨doc, []⟩ ∧ P doc := by
  obtain ⟨⟨doc, warnings⟩, hread, hresult⟩ := Option.map_eq_some_iff.1 h
  obtain ⟨rfl, hproperty⟩ := Prod.mk.inj hresult
  exact ⟨doc, by rw [read, hread], of_decide_eq_true hproperty⟩

/-- A run with a tab between two pieces, a link that leads nowhere, and a cell. -/
theorem read_keeps_typed_sheet :
    let body : Element := .branch (w "body") [
      .branch (w "p") [
        .branch (w "r") [.ofText (w "t") "one ", .leaf (w "tab"), .ofText (w "t") "two"],
        .branch (w "hyperlink") [.branch (w "r") [.ofText (w "t") " three"]]],
      .branch (w "tbl") [.branch (w "tr") [.branch (w "tc") [.branch (w "p") [
        .branch (w "r") [.ofText (w "t") "four"]]]]],
      .leaf (w "sectPr")]
    ∃ doc, read (ofBody body) .standard = .ok ⟨doc, []⟩ ∧
      letters (typed body) = "onetwothreefour".toList ∧
      Keeps (typed body) doc.content.textContent.toList := by
  intro body
  obtain ⟨doc, hread, -⟩ : ∃ doc, read (ofBody body) .standard = .ok ⟨doc, []⟩ ∧ True :=
    exists_read (by decide +kernel)
  obtain ⟨root, found, hroot, hfound, hkept, -⟩ := read_keeps_typed hread
  obtain rfl : .branch (w "document") [body] = root := Option.some.inj hroot
  have hbody : (Element.branch (w "document") [body]).first? (w "body") = some body := rfl
  rw [hbody] at hfound
  obtain rfl : body = found := Option.some.inj hfound
  exact ⟨doc, hread, by decide +kernel, hkept (by decide +kernel)⟩

/-- A run that was inserted is passed over. -/
theorem not_read_keeps_typed_insertion :
    let body : Element := .branch (w "body") [
      .branch (w "p") [.branch (w "ins") [.branch (w "r") [.ofText (w "t") "x"]]]]
    ∃ doc, read (ofBody body) .standard = .ok ⟨doc, []⟩ ∧
      ¬Keeps (typed body) doc.content.textContent.toList := by
  intro body
  exact exists_read (by decide +kernel)

end Interchange.Word
