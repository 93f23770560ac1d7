import Interchange.Proofs.Word.Succeeding

/-!
# Core properties that are read back

A core property that a document sets comes back without the characters that markup forbids and cut
to its greatest length. One that a document does not set keeps what a new package says, so an author
and a comment are read that no document has stated.
-/
namespace Interchange.Word

open Markup (Element)

namespace CoreProperties

variable {properties : CoreProperties}

lemma isNamed_element (field other : CoreField) (text : String) :
    field.isNamed (other.element text).name = decide (field = other) := by
  rw [CoreField.element, name_ofText]
  cases field <;> cases other <;> decide +kernel

/-- The properties are kept apart: each is read from its own element. -/
theorem ofElement_toElement (properties : CoreProperties) :
    ofElement properties.toElement = properties := by
  funext field
  have hfind : properties.toElement.children.find? (fun e => field.isNamed e.name) =
      some (field.element (properties field)) := by
    rw [toElement, Element.children_branch, List.find?_map]
    have hown : CoreField.all.find? (fun other => decide (field = other)) = some field := by
      cases field <;> rfl
    have hnames : ((fun e : Element => field.isNamed e.name) ∘ fun other : CoreField =>
        other.element (properties other)) = fun other => decide (field = other) :=
      funext fun other => isNamed_element field other _
    rw [hnames, hown]
    rfl
  rw [ofElement, hfind]
  rfl

lemma mem_all (field : CoreField) : field ∈ CoreField.all := by
  cases field <;> decide

lemma name_injective : Function.Injective CoreField.name := by
  intro field other h
  cases field <;> cases other <;> first | rfl | exact absurd h (by decide)

/-- A property is in the bag if it says something. -/
lemma get?_toBag (properties : CoreProperties) (field : CoreField) :
    properties.toBag.get? field.name =
      ((some (properties field)).filter (· ≠ "")).map Value.text := by
  have hfold (fields : List CoreField) (bag : Bag) :
      (fields.foldl (fun bag field =>
        let text := properties field
        if text = "" then bag else Bag.insertText bag field.name text) bag).get? field.name =
        if field ∈ fields ∧ properties field ≠ "" then some (.text (properties field))
        else bag.get? field.name := by
    induction fields generalizing bag with
    | nil => simp
    | cons other fields ih =>
      rw [List.foldl_cons, ih]
      by_cases hother : other = field
      · subst hother
        by_cases hempty : properties other = "" <;> simp [hempty, Bag.insertText]
      · have hname : other.name ≠ field.name := fun h => hother (name_injective h)
        by_cases hempty : properties other = "" <;>
          simp [hempty, Bag.insertText, hname, Ne.symm hother]
  rw [toBag, hfold]
  by_cases hempty : properties field = "" <;> simp [mem_all, hempty]

end CoreProperties

/-- What a document states of a core property: its text without the characters that markup forbids,
cut to 255 characters, unless nothing remains. -/
def statedText? (metadata : Bag) (field : CoreField) : Option String :=
  ((Bag.text? metadata field.name).map fun text =>
    String.ofList ((text.toList.filter Markup.isAllowed).take 255)).filter (· ≠ "")

/-- What a new package states. -/
def templateText? (field : CoreField) : Option String :=
  (some (CoreProperties.ofTemplate field)).filter (· ≠ "")

/-- What a package states after a document was written to it. -/
def keptText? (metadata : Bag) (field : CoreField) : Option String :=
  if (Bag.filled? metadata field.name).isSome then statedText? metadata field
  else templateText? field

/-- What a field says once the document was asked for it. -/
def composedText (metadata : Bag) (properties : CoreProperties) (field : CoreField) : String :=
  match Bag.filled? metadata field.name with
  | some text => String.ofList ((allowedText text).toList.take coreLimit)
  | none => properties field

lemma composeField_value (metadata : Bag) (properties : CoreProperties)
    (field other : CoreField) : (composeField metadata properties other).value field =
      if field = other then composedText metadata properties field else properties field := by
  rw [composeField, composedText]
  by_cases hfield : field = other
  · subst hfield
    cases Bag.filled? metadata field.name <;>
      simp [Noted.bind_value, Noted.pure_value, CoreProperties.set]
  · cases Bag.filled? metadata other.name <;>
      simp [Noted.bind_value, Noted.pure_value, CoreProperties.set, hfield]

lemma composeCore_value (metadata : Bag) (field : CoreField) :
    (composeCore metadata).value field = composedText metadata .ofTemplate field := by
  have hfold (fields : List CoreField) (properties : CoreProperties) :
      (fields.foldlM (composeField metadata) properties).value field =
        if field ∈ fields then composedText metadata properties field else properties field := by
    induction fields generalizing properties with
    | nil => rfl
    | cons other fields ih =>
      rw [List.foldlM_cons, Noted.bind_value, ih]
      -- Setting the field before makes no difference to what it is set to in the end.
      have hagain : composedText metadata (composeField metadata properties other).value field =
          composedText metadata properties field := by
        have hvalue := composeField_value metadata properties field other
        cases hfilled : Bag.filled? metadata field.name with
        | some text => simp only [composedText, hfilled]
        | none =>
          simp only [composedText, hfilled] at hvalue ⊢
          rw [hvalue, ite_self]
      rw [hagain, composeField_value]
      by_cases hother : field = other <;> simp [hother]
  rw [composeCore, hfold, if_pos (CoreProperties.mem_all field)]

/-- What is put into a package is what is kept. -/
lemma filter_composedText (metadata : Bag) (field : CoreField) :
    (some (composedText metadata .ofTemplate field)).filter (· ≠ "") = keptText? metadata field := by
  rw [composedText, keptText?]
  cases hfilled : Bag.filled? metadata field.name with
  | none => rfl
  | some text =>
    have htext : Bag.text? metadata field.name = some text := by
      rw [Bag.filled?] at hfilled
      exact (Option.filter_eq_some_iff.1 hfilled).1
    rw [if_pos (by rfl), statedText?, htext, Option.map_some]
    simp only [allowedText, String.toList_ofList]
    rfl

/-- A document is written and read back with what the package has kept of its core properties. -/
lemma exists_kept (doc : Document) (options : ReadOptions) :
    ∃ written result, write doc .standard = .ok written ∧
      (Payload.composition written.value).readPackage options = .ok result ∧
      ∀ field : CoreField, result.value.metadata.get? field.name =
        (keptText? doc.metadata field).map Value.text := by
  obtain ⟨configure, style, hwrite⟩ := write_standard doc
  let composition := (composeDocument doc .standard configure style).value
  have hlayout : composition.layout = .standard := rfl
  have hcore : composition.core = (composeCore doc.metadata).value := rfl
  obtain ⟨result, hread, hmetadata⟩ := exists_read_package composition hlayout options
  refine ⟨_, result, hwrite, hread, fun field => ?_⟩
  rw [hmetadata, CoreProperties.ofElement_toElement, CoreProperties.get?_toBag, hcore,
    composeCore_value, filter_composedText]

/-- Every core property is read back as the document states it, if the document has a text for it or
a new package says nothing there; otherwise what a new package says is read. -/
theorem read_write_core (doc : Document) (options : ReadOptions) :
    ∃ written result, write doc .standard = .ok written ∧
      (Payload.composition written.value).readPackage options = .ok result ∧
      ∀ field : CoreField,
        result.value.metadata.get? field.name = (keptText? doc.metadata field).map Value.text ∧
        (result.value.metadata.get? field.name = (statedText? doc.metadata field).map Value.text ↔
          (Bag.filled? doc.metadata field.name).isSome ∨ CoreProperties.ofTemplate field = "") := by
  obtain ⟨written, result, hwrite, hread, hkept⟩ := exists_kept doc options
  refine ⟨written, result, hwrite, hread, fun field => ⟨hkept field, ?_⟩⟩
  rw [hkept, keptText?]
  cases hfilled : Bag.filled? doc.metadata field.name with
  | some text => simp
  | none =>
    have hstated : statedText? doc.metadata field = none := by
      rw [Bag.filled?, Option.filter_eq_none_iff] at hfilled
      rw [statedText?]
      cases htext : Bag.text? doc.metadata field.name with
      | none => rfl
      | some text =>
        obtain rfl : text = "" := by simpa using hfilled text htext
        rfl
    rw [hstated, templateText?]
    by_cases hsilent : CoreProperties.ofTemplate field = "" <;> simp [hsilent]

/-- A document that states nothing is read back with an author. -/
theorem not_read_write_core_bare :
    let doc := Document.ofContent (.document [])
    ∃ written result, write doc .standard = .ok written ∧
      (Payload.composition written.value).readPackage .standard = .ok result ∧
      statedText? doc.metadata .author = none ∧
      result.value.metadata.get? CoreField.author.name = some (.text "python-docx") := by
  intro doc
  obtain ⟨written, result, hwrite, hread, hkept⟩ := exists_kept doc .standard
  have hauthor : keptText? doc.metadata .author = some "python-docx" := by decide +kernel
  exact ⟨written, result, hwrite, hread, rfl, (hkept .author).trans (congrArg _ hauthor)⟩

end Interchange.Word
