import Interchange.Proofs.Document.Contents
import Interchange.Proofs.Word.Citing

/-!
# Numbers of footnotes

Definitions are numbered in the order of the document. A label leads to the definition that has it,
unless a later definition without a label has that label for its number: this one is found instead.
-/
namespace Interchange.Word

section Places

variable {α : Type} {items : List α} {p : α → Bool} {item later : α} {i : ℕ}

lemma eq_take_append_cons_drop (h : items[i]? = some item) :
    items = items.take i ++ item :: items.drop (i + 1) := by
  obtain ⟨hi, hget⟩ := List.getElem?_eq_some_iff.1 h
  rw [← hget, ← List.drop_eq_getElem_cons hi, List.take_append_drop]

lemma mem_drop_iff : later ∈ items.drop (i + 1) ↔ ∃ j, i < j ∧ items[j]? = some later := by
  rw [List.mem_iff_getElem?]
  constructor
  · rintro ⟨k, hk⟩
    rw [List.getElem?_drop] at hk
    exact ⟨i + 1 + k, by omega, hk⟩
  · rintro ⟨j, hj, hlater⟩
    refine ⟨j - (i + 1), ?_⟩
    have hindex : i + 1 + (j - (i + 1)) = j := by omega
    rw [List.getElem?_drop, hindex, hlater]

/-- The last of several items that has a property. -/
lemma find?_reverse_eq_some (hitem : items[i]? = some item) (hp : p item = true)
    (hlast : ∀ later ∈ items.drop (i + 1), p later = false) :
    items.reverse.find? p = some item := by
  refine List.find?_eq_some_iff_append.2
    ⟨hp, (items.drop (i + 1)).reverse, (items.take i).reverse, ?_, fun later hlater => ?_⟩
  · conv_lhs => rw [eq_take_append_cons_drop hitem]
    rw [List.reverse_append, List.reverse_cons, List.append_assoc]
    rfl
  · rw [hlast later (List.mem_reverse.1 hlater)]
    rfl

lemma exists_of_find?_reverse (h : items.reverse.find? p = some item) :
    ∃ i, items[i]? = some item ∧ p item = true ∧ ∀ later ∈ items.drop (i + 1), p later = false := by
  obtain ⟨hp, after, before, hsplit, hafter⟩ := List.find?_eq_some_iff_append.1 h
  have hitems : items = before.reverse ++ item :: after.reverse := by
    rw [← List.reverse_reverse items, hsplit, List.reverse_append, List.reverse_cons,
      List.append_assoc]
    rfl
  refine ⟨before.reverse.length, ?_, hp, fun later hlater => ?_⟩
  · rw [hitems, List.getElem?_append_right le_rfl, Nat.sub_self]
    rfl
  · rw [hitems, List.drop_append, List.drop_of_length_le (by omega), List.nil_append,
      Nat.add_sub_cancel_left, List.drop_succ_cons, List.drop_zero] at hlater
    simpa using hafter later (List.mem_reverse.1 hlater)

end Places

/-- The label of a definition, if it has one. -/
def definitionLabel? (definition : Node) : Option String :=
  Bag.filled? definition.props Key.label

/-- What the definition with a number is found by: its label, or else the number. -/
def footnoteKey (i : ℕ) (definition : Node) : String :=
  (definitionLabel? definition).getD (Number.natText (i + 1))

lemma getElem?_footnoteNumbers (definitions : List Node) (i : ℕ) :
    (footnoteNumbers definitions)[i]? =
      (definitions[i]?).map fun definition => (footnoteKey i definition, i + 1) := by
  rw [footnoteNumbers, List.getElem?_mapIdx]
  rfl

/-- The number that a label leads to. -/
def footnoteNumber? (definitions : List Node) (label : String) : Option ℕ :=
  ((footnoteNumbers definitions).reverse.find? (·.1 = label)).map (·.2)

/-- A label leads to the last definition that is found by it. -/
theorem footnoteNumber?_eq_some_iff {definitions : List Node} {label : String} {i : ℕ} :
    footnoteNumber? definitions label = some (i + 1) ↔
      (∃ definition, definitions[i]? = some definition ∧ footnoteKey i definition = label) ∧
        ∀ j later, i < j → definitions[j]? = some later → footnoteKey j later ≠ label := by
  constructor
  · intro h
    obtain ⟨⟨key, number⟩, hfind, rfl⟩ := Option.map_eq_some_iff.1 h
    obtain ⟨k, hk, hkey, hlast⟩ := exists_of_find?_reverse hfind
    rw [getElem?_footnoteNumbers] at hk
    obtain ⟨definition, hdefinition, hpair⟩ := Option.map_eq_some_iff.1 hk
    obtain ⟨rfl, hnumber⟩ := Prod.mk.inj hpair
    obtain rfl : k = i := Nat.succ.inj hnumber
    refine ⟨⟨definition, hdefinition, by simpa using hkey⟩, fun j later hj hlater hsame => ?_⟩
    have hentry : (footnoteNumbers definitions)[j]? = some (footnoteKey j later, j + 1) := by
      rw [getElem?_footnoteNumbers, hlater]
      rfl
    have hother := hlast _ (mem_drop_iff.2 ⟨j, hj, hentry⟩)
    simp [hsame] at hother
  · rintro ⟨⟨definition, hdefinition, hkey⟩, hlast⟩
    have hitem : (footnoteNumbers definitions)[i]? = some (label, i + 1) := by
      rw [getElem?_footnoteNumbers, hdefinition, ← hkey]
      rfl
    have hfind : (footnoteNumbers definitions).reverse.find? (·.1 = label) =
        some (label, i + 1) := by
      refine find?_reverse_eq_some hitem (by simp) fun entry hentry => ?_
      obtain ⟨j, hj, hentry⟩ := mem_drop_iff.1 hentry
      rw [getElem?_footnoteNumbers] at hentry
      obtain ⟨other, hother, rfl⟩ := Option.map_eq_some_iff.1 hentry
      simpa using hlast j other hj hother
    rw [footnoteNumber?, hfind]
    rfl

/-- A later definition has no label, and the given label is its number. -/
structure Shadows (definitions : List Node) (i : ℕ) (label : String) (j : ℕ) (later : Node) :
    Prop where
  behind : i < j
  found : definitions[j]? = some later
  unlabelled : definitionLabel? later = none
  number : Number.natText (j + 1) = label

section Distinct

variable {definitions : List Node} {i : ℕ} {definition : Node} {label : String}

/-- With labels that are all different, the one of a definition does not come up again. -/
lemma label_ne_of_lt (hdistinct : (definitions.filterMap definitionLabel?).Nodup)
    (hdefinition : definitions[i]? = some definition)
    (hlabel : definitionLabel? definition = some label) {j : ℕ} {later : Node} (hj : i < j)
    (hlater : definitions[j]? = some later) : definitionLabel? later ≠ some label := by
  rw [eq_take_append_cons_drop hdefinition, List.filterMap_append, List.filterMap_cons,
    hlabel] at hdistinct
  have hnotMem := (List.nodup_cons.1 (List.nodup_append.1 hdistinct).2.1).1
  exact fun hsame =>
    hnotMem (List.mem_filterMap.2 ⟨later, mem_drop_iff.2 ⟨j, hj, hlater⟩, hsame⟩)

/-- The label of a definition leads to it, unless a later one shadows it. -/
theorem footnoteNumber?_of_label (hdistinct : (definitions.filterMap definitionLabel?).Nodup)
    (hdefinition : definitions[i]? = some definition)
    (hlabel : definitionLabel? definition = some label)
    (hclear : ∀ j later, ¬Shadows definitions i label j later) :
    footnoteNumber? definitions label = some (i + 1) := by
  have hkey : footnoteKey i definition = label := by rw [footnoteKey, hlabel, Option.getD_some]
  refine footnoteNumber?_eq_some_iff.2
    ⟨⟨definition, hdefinition, hkey⟩, fun j later hj hlater hsame => ?_⟩
  cases hother : definitionLabel? later with
  | none =>
    have hnumber : Number.natText (j + 1) = label := by
      rw [← hsame, footnoteKey, hother, Option.getD_none]
    exact hclear j later ⟨hj, hlater, hother, hnumber⟩
  | some other =>
    obtain rfl : other = label := by rw [← hsame, footnoteKey, hother, Option.getD_some]
    exact label_ne_of_lt hdistinct hdefinition hlabel hj hlater hother

/-- A definition that is shadowed is not found by its label; the later one is. -/
theorem footnoteNumber?_of_shadows (hdistinct : (definitions.filterMap definitionLabel?).Nodup)
    (hdefinition : definitions[i]? = some definition)
    (hlabel : definitionLabel? definition = some label) {j : ℕ} {later : Node}
    (hshadows : Shadows definitions i label j later) :
    footnoteNumber? definitions label = some (j + 1) := by
  have hkey : footnoteKey j later = label := by
    rw [footnoteKey, hshadows.unlabelled, Option.getD_none, hshadows.number]
  refine footnoteNumber?_eq_some_iff.2
    ⟨⟨later, hshadows.found, hkey⟩, fun k last hk hlast hsame => ?_⟩
  cases hother : definitionLabel? last with
  | none =>
    -- No other definition has the same number.
    have hnumber : Number.natText (k + 1) = Number.natText (j + 1) := by
      rw [hshadows.number, ← hsame, footnoteKey, hother, Option.getD_none]
    have := Number.natText_injective hnumber
    omega
  | some other =>
    obtain rfl : other = label := by rw [← hsame, footnoteKey, hother, Option.getD_some]
    exact label_ne_of_lt hdistinct hdefinition hlabel (hshadows.behind.trans hk) hlast hother

end Distinct

/-- What is written is the composition of the document, whatever the settings. -/
lemma exists_composeDocument {doc : Document} {options : WriteOptions}
    {outcome : Outcome Composition} (h : write doc options = .ok outcome) :
    ∃ configure style, outcome = (composeDocument doc options configure style).outcome := by
  unfold write at h
  dsimp only at h
  split at h
  · exact ⟨_, _, (Except.ok.inj h).symm⟩
  · split at h
    · cases h
    · exact ⟨_, _, (Except.ok.inj h).symm⟩

lemma references_composeDocument (doc : Document) (options : WriteOptions) (configure : Bool)
    (style : Option String) :
    (composeDocument doc options configure style).value.references =
      (cited false doc.content).filterMap fun reference =>
        footnoteNumber? (footnoteNodes doc) (referenceLabel reference) :=
  citesAll_composeBlock ⟨doc, footnoteNumbers (footnoteNodes doc), style⟩ .outermost doc.content

/-- The paragraphs of the footnote that a definition is written as. -/
def bodyOf (definition : Node) : FootnoteText := (footnoteTexts definition).map allowedText

lemma footnotes_composeDocument (doc : Document) (options : WriteOptions) (configure : Bool)
    (style : Option String) :
    (composeDocument doc options configure style).value.footnotes =
      (footnoteNodes doc).map bodyOf := by
  have hvalue : (composeDocument doc options configure style).value.footnotes =
      (composeFootnotes (footnoteNodes doc)).value := rfl
  rw [hvalue, composeFootnotes]
  simp only [Noted.bind_value, Noted.pure_value, Noted.mapM_value, storable_value]
  rfl

/-- Together the paragraphs of a footnote are the text of its definition. -/
theorem join_bodyOf {definition : Node} (h : definition.kind = .footnoteDef) :
    String.join (bodyOf definition) = allowedText definition.textContent := by
  have htext : String.join (footnoteTexts definition) = definition.textContent := by
    rw [footnoteTexts]
    split
    · exact String.empty_append
    · rw [Node.textContent_of_parts (by rw [h]; decide)]
      refine String.toList_inj.1 ?_
      rw [toList_join_map, Node.textContents_eq_flatMap]
  rw [← htext, bodyOf]
  refine String.toList_inj.1 ?_
  rw [toList_join_map, allowedText, String.toList_ofList, String.toList_join, List.filter_flatMap]
  refine List.flatMap_congr fun text _ => ?_
  rw [allowedText, String.toList_ofList]

/-- The footnote with a number; the first one has the number one. -/
def Composition.footnote? (composition : Composition) : ℕ → Option FootnoteText
  | 0 => none
  | i + 1 => composition.footnotes[i]?

/-- The references in the running text of a document that are found in the table of labels. -/
def citations (doc : Document) : List Node :=
  (cited false doc.content).filter fun reference =>
    (footnoteNumbers (footnoteNodes doc)).any (·.1 = referenceLabel reference)

/-- Where the label of a reference is the one of a definition, the footnote with the number has the
text of that definition. -/
def LeadsTo (doc : Document) (composition : Composition) (reference : Node) (number : ℕ) : Prop :=
  ∀ definition ∈ footnoteNodes doc, definitionLabel? definition = some (referenceLabel reference) →
    (composition.footnote? number).map String.join = some (allowedText definition.textContent)

/-- The references are written as numbers, in their order, and each leads to its definition. -/
def Reaches (doc : Document) (composition : Composition) : Prop :=
  List.Forall₂ (LeadsTo doc composition) (citations doc) composition.references

instance (doc : Document) (composition : Composition) (reference : Node) (number : ℕ) :
    Decidable (LeadsTo doc composition reference number) :=
  inferInstanceAs (Decidable (∀ definition ∈ footnoteNodes doc, _ → _))

instance (doc : Document) (composition : Composition) : Decidable (Reaches doc composition) :=
  decidable_of_iff ((citations doc).length = composition.references.length ∧
      ∀ pair ∈ (citations doc).zip composition.references, LeadsTo doc composition pair.1 pair.2)
    (by rw [Reaches, List.forall₂_iff_zip, Prod.forall])

/-- A reference to the label of a definition is among those that are written as numbers. -/
theorem mem_citations_of_label {doc : Document} {reference definition : Node}
    (hreference : reference ∈ cited false doc.content)
    (hdefinition : definition ∈ footnoteNodes doc)
    (hlabel : definitionLabel? definition = some (referenceLabel reference)) :
    reference ∈ citations doc := by
  obtain ⟨i, hi⟩ := List.mem_iff_getElem?.1 hdefinition
  have hentry : (footnoteNumbers (footnoteNodes doc))[i]? =
      some (referenceLabel reference, i + 1) := by
    rw [getElem?_footnoteNumbers, hi, Option.map_some, footnoteKey, hlabel, Option.getD_some]
  refine List.mem_filter.2 ⟨hreference, List.any_eq_true.2 ⟨_, List.mem_of_getElem? hentry, ?_⟩⟩
  simp

/-- What a partial function finds is related to what it is found for. -/
lemma forall₂_filterMap_iff {α β : Type} {R : α → β → Prop} {f : α → Option β} {items : List α} :
    List.Forall₂ R (items.filter fun a => (f a).isSome) (items.filterMap f) ↔
      ∀ a ∈ items, ∀ b, f a = some b → R a b := by
  induction items with
  | nil => simp
  | cons a items ih =>
    rw [List.forall_mem_cons, ← ih, List.filter_cons, List.filterMap_cons]
    cases hb : f a with
    | none => simp
    | some b => simp

lemma citations_eq (doc : Document) : citations doc =
    (cited false doc.content).filter fun reference =>
      (footnoteNumber? (footnoteNodes doc) (referenceLabel reference)).isSome := by
  refine List.filter_congr fun reference _ => ?_
  rw [footnoteNumber?, Option.isSome_map, List.isSome_find?, List.any_reverse]

lemma join_footnote? {doc : Document} {options : WriteOptions} {outcome : Outcome Composition}
    (h : write doc options = .ok outcome) {i : ℕ} {definition : Node}
    (hdefinition : (footnoteNodes doc)[i]? = some definition) :
    (outcome.value.footnote? (i + 1)).map String.join =
      some (allowedText definition.textContent) := by
  obtain ⟨configure, style, rfl⟩ := exists_composeDocument h
  have hkind : definition.kind = .footnoteDef := by
    simpa using (List.mem_filter.1 (List.mem_of_getElem? hdefinition)).2
  change ((composeDocument doc options configure style).value.footnotes[i]?).map String.join = _
  rw [footnotes_composeDocument, List.getElem?_map, hdefinition, Option.map_some, Option.map_some,
    join_bodyOf hkind]

/-- When the labels of definitions are all different, every reference in running text to such a
label reaches the footnote with the text of its definition, unless a later definition with another
text shadows it. Nothing is said of references that are not written as references: those in the
body of a footnote, below a node of an unknown kind and in a table directly in a cell. -/
theorem reaches_write_iff {doc : Document} {options : WriteOptions} {outcome : Outcome Composition}
    (hdistinct : ((footnoteNodes doc).filterMap definitionLabel?).Nodup)
    (h : write doc options = .ok outcome) :
    Reaches doc outcome.value ↔
      ∀ reference ∈ cited false doc.content, ∀ i definition,
        (footnoteNodes doc)[i]? = some definition →
        definitionLabel? definition = some (referenceLabel reference) →
        ∀ j later, Shadows (footnoteNodes doc) i (referenceLabel reference) j later →
          allowedText later.textContent = allowedText definition.textContent := by
  have hreferences : outcome.value.references = (cited false doc.content).filterMap
      fun reference => footnoteNumber? (footnoteNodes doc) (referenceLabel reference) := by
    obtain ⟨configure, style, rfl⟩ := exists_composeDocument h
    exact references_composeDocument doc options configure style
  rw [Reaches, citations_eq, hreferences, forall₂_filterMap_iff]
  refine forall₂_congr fun reference _ => ⟨fun hreaches i definition hi hlabel j later hj => ?_,
    fun hsame number hnumber definition hdefinition hlabel => ?_⟩
  · have hnumber := footnoteNumber?_of_shadows hdistinct hi hlabel hj
    have hown := hreaches _ hnumber definition (List.mem_of_getElem? hi) hlabel
    rw [join_footnote? h hj.found] at hown
    exact Option.some.inj hown
  · obtain ⟨i, hi⟩ := List.mem_iff_getElem?.1 hdefinition
    by_cases hshadow : ∃ j later, Shadows (footnoteNodes doc) i (referenceLabel reference) j later
    · obtain ⟨j, later, hj⟩ := hshadow
      rw [footnoteNumber?_of_shadows hdistinct hi hlabel hj] at hnumber
      have htext := hsame i definition hi hlabel j later hj
      rw [← Option.some.inj hnumber, join_footnote? h hj.found, htext]
    · have hclear : ∀ j later, ¬Shadows (footnoteNodes doc) i (referenceLabel reference) j later :=
        fun j later hj => hshadow ⟨j, later, hj⟩
      rw [footnoteNumber?_of_label hdistinct hi hlabel hclear] at hnumber
      rw [← Option.some.inj hnumber, join_footnote? h hi]

/-- What is written, by computation. -/
lemma exists_write {doc : Document} {options : WriteOptions} {P : Outcome Composition → Prop}
    [DecidablePred P]
    (h : (write doc options).toOption.map (fun outcome => decide (P outcome)) = some true) :
    ∃ outcome, write doc options = .ok outcome ∧ P outcome := by
  obtain ⟨outcome, houtcome, hproperty⟩ := Option.map_eq_some_iff.1 h
  cases hwrite : write doc options with
  | error fault =>
    rw [hwrite] at houtcome
    cases houtcome
  | ok written =>
    rw [hwrite] at houtcome
    obtain rfl := Option.some.inj houtcome
    exact ⟨written, rfl, of_decide_eq_true hproperty⟩

/-- A definition without a label between two with one, referred to from a heading and a list. -/
theorem reaches_write_report :
    let doc := Document.ofContent (.document [
      .heading 1 [.text "one", .footnoteRef "b"],
      .footnoteDef "a" [.paragraph [.text "first"]],
      .branch .footnoteDef [.paragraph [.text "second"]],
      .footnoteDef "b" [.paragraph [.text "third, "], .paragraph [.text "and more"]],
      .list false [.listItem [.paragraph [.branch .strong [.footnoteRef "a"], .footnoteRef "2"]]]])
    ((footnoteNodes doc).filterMap definitionLabel?).Nodup ∧
      ∃ outcome, write doc .standard = .ok outcome ∧ outcome.value.references = [3, 1, 2] ∧
        Reaches doc outcome.value := by
  intro doc
  have hdistinct : ((footnoteNodes doc).filterMap definitionLabel?).Nodup := by decide +kernel
  obtain ⟨outcome, hwrite, hreferences⟩ : ∃ outcome, write doc .standard = .ok outcome ∧
      outcome.value.references = [3, 1, 2] := exists_write (by decide +kernel)
  refine ⟨hdistinct, outcome, hwrite, hreferences, (reaches_write_iff hdistinct hwrite).2 ?_⟩
  have hlabels : (footnoteNodes doc).map definitionLabel? = [some "a", none, some "b"] := by
    decide +kernel
  have hlabelOf {i : ℕ} {definition : Node} (h : (footnoteNodes doc)[i]? = some definition) :
      [some "a", none, some "b"][i]? = some (definitionLabel? definition) := by
    rw [← hlabels, List.getElem?_map, h]
    rfl
  intro reference _ i definition hi hlabel j later hshadows
  have hown := hlabelOf hi
  have hlater := hlabelOf hshadows.found
  rw [hlabel] at hown
  rw [hshadows.unlabelled] at hlater
  have hj : j = 1 := by
    match j with
    | 0 | 2 | _ + 3 => simp at hlater
    | 1 => rfl
  obtain rfl : i = 0 := by
    have := hshadows.behind
    omega
  have hnumber := hshadows.number
  rw [hj, ← Option.some.inj (Option.some.inj hown)] at hnumber
  exact absurd hnumber (by decide +kernel)

/-- The second definition has no label, and its number is the label of the first. -/
theorem not_reaches_write_numbered :
    let doc := Document.ofContent (.document [
      .footnoteDef "2" [.paragraph [.text "first"]],
      .branch .footnoteDef [.paragraph [.text "second"]],
      .paragraph [.text "see", .footnoteRef "2"]])
    ((footnoteNodes doc).filterMap definitionLabel?).Nodup ∧
      ∃ outcome, write doc .standard = .ok outcome ∧ ¬Reaches doc outcome.value := by
  intro doc
  exact ⟨by decide +kernel, exists_write (by decide +kernel)⟩

end Interchange.Word
