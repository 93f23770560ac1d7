import Interchange.Native.Text
import Interchange.Proofs.Document.Spelling
import Interchange.Proofs.Document.Texts
import Interchange.Proofs.Document.Validation
import Interchange.Proofs.Json.Halves
import Interchange.Proofs.Native.RoundTrip

/-!
# The texts of the native form

The form of a document has the texts of the document and, beside them, names of its own. The other
way round a document that is read has no text that the form does not have.
-/
namespace Interchange

variable {τ : Type}

namespace Json

lemma forall_mem_texts_member [DecidableEq τ] {P : τ → Prop} {members : List (τ × Json τ)}
    (h : ∀ text ∈ textsOfMembers members, P text) (name : τ) :
    ∀ text ∈ (member members name).texts, P text := by
  induction members with
  | nil => exact List.forall_mem_nil _
  | cons m members ih =>
    rw [textsOfMembers, List.forall_mem_cons, List.forall_mem_append] at h
    rw [member_cons]
    split
    · exact h.2.1
    · exact ih h.2.2

end Json

namespace Value

mutual

theorem texts_toJson : ∀ v : Value τ, v.toJson.texts = v.texts
  | .text _ => rfl
  | .int _ => rfl
  | .float _ => rfl
  | .bool _ => rfl
  | .list items => textsOfItems_toJsonItems items
  | .map fields => textsOfMembers_toJsonFields fields

theorem textsOfItems_toJsonItems : ∀ vs : List (Value τ),
    Json.textsOfItems (toJsonItems vs) = textsOfItems vs
  | [] => rfl
  | v :: vs => by
    rw [toJsonItems, Json.textsOfItems, texts_toJson v, textsOfItems_toJsonItems vs, textsOfItems]

theorem textsOfMembers_toJsonFields : ∀ fields : List (τ × Value τ),
    Json.textsOfMembers (toJsonFields fields) = textsOfFields fields
  | [] => rfl
  | (name, v) :: fields => by
    rw [toJsonFields, Json.textsOfMembers, texts_toJson v, textsOfMembers_toJsonFields fields,
      textsOfFields]

end

lemma texts_of_ofJson {value : Json τ} {v : Value τ} (h : ofJson value = .ok v) :
    v.texts = value.texts := by
  rw [← texts_toJson, toJson_of_ofJson value v h]

end Value

lemma Kind.name_of_ofName? [Textual τ] [DecidableEq τ] {name : τ} {kind : Kind τ}
    (h : Kind.ofName? name = some kind) : kind.name = name := by
  unfold Kind.ofName? at h
  split at h
  · cases h
    rfl
  · cases h

namespace Bag

lemma texts_toJson (bag : Bag τ) : (toJson bag).texts = texts bag :=
  Value.textsOfMembers_toJsonFields bag.entries

/-- What is set of the members of an object. -/
lemma forall_mem_texts_ofMembers [DecidableEq τ] {P : τ → Prop} {members : List (τ × Json τ)}
    (hmembers : ∀ text ∈ Json.textsOfMembers members, P text) {bag : Bag τ}
    (h : ofMembers members = .ok bag) : ∀ text ∈ texts bag, P text := by
  rw [Json.forall_mem_textsOfMembers_iff] at hmembers
  rw [texts, Value.forall_mem_textsOfFields_iff]
  refine OrderedMap.forall_mem_entries_foldlM h (List.forall_mem_nil _) fun member hmember v hv => ?_
  rw [Value.texts_of_ofJson hv]
  exact hmembers member hmember

end Bag

namespace Native

lemma texts_encodeSpan (span : Option Span) : (encodeSpan span).texts = [] := by
  cases span <;> rfl

variable {P : Wide → Prop}

mutual

theorem forall_mem_texts_encodeNode (hplain : ∀ name : String, P name) : ∀ node : Node Wide,
    (∀ text ∈ (encodeNode node).texts, P text) ↔
      ∀ part ∈ node.walk, P part.kind.name ∧ ∀ text ∈ Bag.texts part.props, P text
  | ⟨kind, props, children, span⟩ => by
    rw [Node.walk_eq, List.forall_mem_cons, ← forall_mem_texts_encodeNodes hplain children,
      encodeNode]
    simp only [Json.texts, Json.textsOfMembers, Bag.texts_toJson, texts_encodeSpan,
      List.append_nil, List.forall_mem_cons, List.forall_mem_append, List.not_mem_nil,
      false_imp_iff, implies_true, hplain, and_true, true_and, and_assoc]

theorem forall_mem_texts_encodeNodes (hplain : ∀ name : String, P name) :
    ∀ nodes : List (Node Wide),
    (∀ text ∈ Json.textsOfItems (encodeNodes nodes), P text) ↔
      ∀ part ∈ Node.walkAll nodes, P part.kind.name ∧ ∀ text ∈ Bag.texts part.props, P text
  | [] => iff_of_true (List.forall_mem_nil _) (List.forall_mem_nil _)
  | node :: nodes => by
    rw [encodeNodes, Json.textsOfItems, List.forall_mem_append, Node.walkAll,
      List.forall_mem_append, forall_mem_texts_encodeNode hplain node,
      forall_mem_texts_encodeNodes hplain nodes]

end

section

variable (hplain : ∀ name : String, P name)

include hplain

lemma forall_mem_texts_encodeResource (resource : Resource Wide) :
    (∀ text ∈ (encodeResource resource).texts, P text) ↔
      (∀ text ∈ resource.mimeType :: resource.name.toList, P text) ∧
        ∀ text ∈ Bag.texts resource.metadata, P text := by
  obtain ⟨mimeType, data, name, metadata⟩ := resource
  cases name with
  | none => simp [encodeResource, Json.texts, Json.textsOfMembers, Bag.texts_toJson, hplain]
  | some name =>
    simp [encodeResource, Json.texts, Json.textsOfMembers, Bag.texts_toJson, hplain, or_imp,
      forall_and, and_assoc, and_left_comm]

lemma forall_mem_texts_encodeSource (source : Option (SourceInfo Wide)) :
    (∀ text ∈ (encodeSource source).texts, P text) ↔
      ∀ info ∈ source, P info.format ∧ ∀ text ∈ Bag.texts info.metadata, P text := by
  cases source with
  | none => simp [encodeSource, Json.texts]
  | some info => simp [encodeSource, Json.texts, Json.textsOfMembers, Bag.texts_toJson, hplain]

lemma forall_mem_texts_encodeResources (entries : List (ResourceId Wide × Resource Wide)) :
    (∀ text ∈ Json.textsOfMembers (entries.map fun e => (e.1.text, encodeResource e.2)), P text) ↔
      ∀ e ∈ entries, (∀ text ∈ e.1.text :: e.2.mimeType :: e.2.name.toList, P text) ∧
        ∀ text ∈ Bag.texts e.2.metadata, P text := by
  induction entries with
  | nil => exact iff_of_true (List.forall_mem_nil _) (List.forall_mem_nil _)
  | cons e entries ih =>
    rw [List.map_cons, Json.textsOfMembers, List.forall_mem_cons, List.forall_mem_append, ih,
      forall_mem_texts_encodeResource hplain]
    simp only [List.forall_mem_cons, and_assoc]

/-- The native form has the texts of the document and names of its own. -/
theorem forall_mem_texts_encode (doc : Document Wide) :
    (∀ text ∈ (encode doc).texts, P text) ↔ ∀ text ∈ doc.texts, P text := by
  rw [Document.forall_mem_texts_iff, encode]
  simp only [Json.texts, Json.textsOfMembers, Bag.texts_toJson, List.forall_mem_cons,
    List.forall_mem_append, List.not_mem_nil, false_imp_iff, implies_true, hplain, true_and,
    and_true, forall_mem_texts_encodeNode hplain, forall_mem_texts_encodeSource hplain,
    forall_mem_texts_encodeResources hplain]

end

variable {value : Json Wide} {members : List (Wide × Json Wide)}

lemma of_requireText (hmembers : ∀ text ∈ Json.textsOfMembers members, P text) {name : String}
    {text : Wide} (h : requireText members name = .ok text) : P text := by
  rw [requireText] at h
  split at h
  · next s hs =>
    cases h
    exact Json.forall_mem_texts_member hmembers name _ (hs ▸ List.mem_cons_self)
  · cases h

lemma forall_mem_texts_decodeBag (hvalue : ∀ text ∈ value.texts, P text) {bag : Bag Wide}
    (h : decodeBag value = .ok bag) : ∀ text ∈ Bag.texts bag, P text := by
  cases value with
  | null =>
    cases h
    exact List.forall_mem_nil _
  | object members =>
    rw [decodeBag] at h
    obtain ⟨found, hfound⟩ := Except.exists_mapError_eq_ok_iff.1 ⟨bag, h⟩
    rw [hfound] at h
    cases h
    exact Bag.forall_mem_texts_ofMembers hvalue hfound
  | _ => cases h

lemma forall_mem_texts_decodeItems (hvalue : ∀ text ∈ value.texts, P text)
    {items : List (Json Wide)} (h : decodeItems value = .ok items) :
    ∀ item ∈ items, ∀ text ∈ item.texts, P text := by
  unfold decodeItems at h
  split at h
  · cases h
    exact Json.forall_mem_textsOfItems_iff.1 hvalue
  · split at h
    · cases h
    · cases h
      exact List.forall_mem_nil _

/-- The induction is on the levels that are left. -/
theorem forall_mem_texts_decodeLevels {levels : ℕ} {node : Node Wide}
    (hvalue : ∀ text ∈ value.texts, P text) (h : decodeLevels levels value = .ok node) :
    ∀ part ∈ node.walk, P part.kind.name ∧ ∀ text ∈ Bag.texts part.props, P text := by
  induction levels generalizing value node with
  | zero => cases h
  | succ levels ih =>
    cases value with
    | object members =>
      have hmember := Json.forall_mem_texts_member hvalue
      rw [decodeLevels] at h
      obtain ⟨name, hname, h⟩ := Except.bind_eq_ok_iff.1 h
      split at h
      · cases h
      next kind hkind =>
      obtain ⟨span, -, h⟩ := Except.bind_eq_ok_iff.1 h
      obtain ⟨items, hitems, h⟩ := Except.bind_eq_ok_iff.1 h
      obtain ⟨props, hprops, h⟩ := Except.bind_eq_ok_iff.1 h
      obtain ⟨children, hchildren, h⟩ := Except.bind_eq_ok_iff.1 h
      cases h
      rw [Node.forall_mem_walk_iff]
      refine ⟨⟨?_, forall_mem_texts_decodeBag (hmember _) hprops⟩, fun child hchild => ?_⟩
      · rw [Kind.name_of_ofName? hkind]
        exact of_requireText hvalue hname
      · obtain ⟨item, hitem, hfound⟩ := Except.exists_of_mem_mapM hchildren hchild
        exact ih (forall_mem_texts_decodeItems (hmember _) hitems item hitem) hfound
    | _ => cases h

lemma forall_mem_texts_decodeSource (hvalue : ∀ text ∈ value.texts, P text)
    {source : Option (SourceInfo Wide)} (h : decodeSource value = .ok source) :
    ∀ info ∈ source, P info.format ∧ ∀ text ∈ Bag.texts info.metadata, P text := by
  cases value with
  | null =>
    cases h
    rintro _ ⟨⟩
  | object members =>
    rw [decodeSource] at h
    obtain ⟨format, hformat, h⟩ := Except.bind_eq_ok_iff.1 h
    obtain ⟨metadata, hmetadata, h⟩ := Except.bind_eq_ok_iff.1 h
    cases h
    rintro _ ⟨⟩
    exact ⟨of_requireText hvalue hformat,
      forall_mem_texts_decodeBag (Json.forall_mem_texts_member hvalue _) hmetadata⟩
  | _ => cases h

lemma forall_mem_texts_decodeResource (hvalue : ∀ text ∈ value.texts, P text) {id : Wide}
    {resource : Resource Wide} (h : decodeResource id value = .ok resource) :
    (∀ text ∈ resource.mimeType :: resource.name.toList, P text) ∧
      ∀ text ∈ Bag.texts resource.metadata, P text := by
  cases value with
  | object members =>
    have hmember := Json.forall_mem_texts_member hvalue
    rw [decodeResource] at h
    obtain ⟨data, -, h⟩ := Except.bind_eq_ok_iff.1 h
    obtain ⟨bytes, -, h⟩ := Except.bind_eq_ok_iff.1 h
    obtain ⟨mimeType, hmime, h⟩ := Except.bind_eq_ok_iff.1 h
    obtain ⟨metadata, hmetadata, h⟩ := Except.bind_eq_ok_iff.1 h
    cases h
    refine ⟨List.forall_mem_cons.2 ⟨of_requireText hvalue hmime, ?_⟩,
      forall_mem_texts_decodeBag (hmember _) hmetadata⟩
    dsimp only
    split
    · next name hname =>
      rw [Option.toList_some, List.forall_mem_singleton]
      have htexts := hmember "name"
      rw [hname] at htexts
      exact htexts name List.mem_cons_self
    · exact List.forall_mem_nil _
  | _ => cases h

/-- What is asked of the texts of a resource and of its identifier. -/
lemma forall_mem_texts_decodeResources {members : List (Wide × Json Wide)}
    (hmembers : ∀ text ∈ Json.textsOfMembers members, P text) {table : ResourceTable Wide}
    (h : decodeResources members = .ok table) :
    ∀ e ∈ table.entries, (∀ text ∈ e.1.text :: e.2.mimeType :: e.2.name.toList, P text) ∧
      ∀ text ∈ Bag.texts e.2.metadata, P text := by
  rw [Json.forall_mem_textsOfMembers_iff] at hmembers
  refine OrderedMap.forall_mem_entries_foldlM h (List.forall_mem_nil _) fun member hmember v hv => ?_
  obtain ⟨hid, hvalue⟩ := hmembers member hmember
  obtain ⟨hnames, hmetadata⟩ := forall_mem_texts_decodeResource hvalue hv
  exact ⟨List.forall_mem_cons.2 ⟨hid, hnames⟩, hmetadata⟩

lemma forall_mem_texts_decodeTable (hvalue : ∀ text ∈ value.texts, P text)
    {members : List (Wide × Json Wide)} (h : decodeTable value = .ok members) :
    ∀ text ∈ Json.textsOfMembers members, P text := by
  unfold decodeTable at h
  split at h
  · cases h
    exact hvalue
  · split at h
    · cases h
    · cases h
      exact List.forall_mem_nil _

theorem forall_mem_texts_decode (hvalue : ∀ text ∈ value.texts, P text) {doc : Document Wide}
    (h : decode value = .ok doc) : ∀ text ∈ doc.texts, P text := by
  cases value with
  | object members =>
    have hmember := Json.forall_mem_texts_member hvalue
    rw [decode] at h
    obtain ⟨content, hcontent, h⟩ := Except.bind_eq_ok_iff.1 h
    obtain ⟨metadata, hmetadata, h⟩ := Except.bind_eq_ok_iff.1 h
    obtain ⟨source, hsource, h⟩ := Except.bind_eq_ok_iff.1 h
    obtain ⟨table, htable, h⟩ := Except.bind_eq_ok_iff.1 h
    obtain ⟨resources, hresources, h⟩ := Except.bind_eq_ok_iff.1 h
    cases h
    exact Document.forall_mem_texts_iff.2 ⟨forall_mem_texts_decodeLevels (hmember _) hcontent,
      forall_mem_texts_decodeBag (hmember _) hmetadata,
      forall_mem_texts_decodeSource (hmember _) hsource,
      forall_mem_texts_decodeResources (forall_mem_texts_decodeTable (hmember _) htable) hresources⟩
  | _ => cases h

/-- Every text of a document that is read is one of the native form. -/
theorem forall_mem_texts_of_readDocument (hvalue : ∀ text ∈ value.texts, P text)
    {doc : Document Wide} (h : readDocument value = .ok doc) : ∀ text ∈ doc.texts, P text := by
  unfold readDocument at h
  split at h
  · next members =>
    obtain ⟨-, -, h⟩ := Except.bind_eq_ok_iff.1 h
    split at h
    · cases h
    · cases h
    · next found hfound =>
      split at h
      · cases h
        exact forall_mem_texts_decode hvalue hfound
      · cases h
  · cases h

end Native

end Interchange
