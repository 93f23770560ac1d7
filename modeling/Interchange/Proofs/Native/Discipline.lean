import Interchange.Native.Text
import Interchange.Proofs.Failure

/-!
# How reading the native format may fail

Reading ends with a document or with one of the two errors of input, but for one way out: the data
of a resource that holds a point outside ASCII is no Base64 text at all, and the fault of that is not
among the errors of the reader. The exact condition is stated on the JSON value.
-/
namespace Interchange.Native

lemma requireText_ne_foreignData (members : List (Wide × Json Wide)) (name : String) :
    requireText members name ≠ .error .foreignData := by
  unfold requireText
  split <;> simp

lemma decodeBag_ne_foreignData (value : Json Wide) : decodeBag value ≠ .error .foreignData := by
  unfold decodeBag
  split <;> simp

lemma decodeSpan_ne_foreignData (value : Json Wide) : decodeSpan value ≠ .error .foreignData := by
  unfold decodeSpan
  split
  · simp
  · split <;> simp
  · simp

lemma decodeItems_ne_foreignData (value : Json Wide) : decodeItems value ≠ .error .foreignData := by
  unfold decodeItems
  split
  · simp
  · split <;> simp

/-- The induction is on the levels that are left. -/
lemma decodeLevels_ne_foreignData (levels : ℕ) (value : Json Wide) :
    decodeLevels levels value ≠ .error .foreignData := by
  induction levels generalizing value with
  | zero => simp [decodeLevels]
  | succ levels ih =>
    cases value with
    | object members =>
      rw [decodeLevels]
      refine Except.bind_ne_error (requireText_ne_foreignData _ _) fun name => ?_
      split
      · simp
      · refine Except.bind_ne_error (decodeSpan_ne_foreignData _) fun span => ?_
        refine Except.bind_ne_error (decodeItems_ne_foreignData _) fun items => ?_
        refine Except.bind_ne_error (decodeBag_ne_foreignData _) fun props => ?_
        refine Except.bind_ne_error (Except.mapM_ne_error ih items) fun children => ?_
        simp
    | _ => simp [decodeLevels]

lemma decodeSource_ne_foreignData (value : Json Wide) : decodeSource value ≠ .error .foreignData := by
  unfold decodeSource
  split
  · simp
  · refine Except.bind_ne_error (requireText_ne_foreignData _ _) fun format => ?_
    refine Except.bind_ne_error (decodeBag_ne_foreignData _) fun metadata => ?_
    simp
  · simp

lemma decodeTable_ne_foreignData (value : Json Wide) : decodeTable value ≠ .error .foreignData := by
  unfold decodeTable
  split
  · simp
  · split <;> simp

/-- The entry of a resource whose data holds a point outside ASCII. -/
def HoldsForeignData (entry : Json Wide) : Prop :=
  ∃ fields text, entry = .object fields ∧ Json.member fields "data" = .text text ∧
    ∃ point ∈ text.points, point.isAscii = false

lemma decodeData_eq_foreignData_iff (id text : Wide) :
    decodeData id text = .error .foreignData ↔ ∃ point ∈ text.points, point.isAscii = false := by
  unfold decodeData
  by_cases h : text.points.all Point.isAscii = true
  · have ascii : ¬∃ point ∈ text.points, point.isAscii = false := by simpa using h
    rw [if_pos h]
    split <;> simp [ascii]
  · have foreign : ∃ point ∈ text.points, point.isAscii = false := by simpa using h
    simp [foreign]

theorem decodeResource_eq_foreignData_iff (id : Wide) (entry : Json Wide) :
    decodeResource id entry = .error .foreignData ↔ HoldsForeignData entry := by
  cases entry with
  | object fields =>
    cases hdata : Json.member fields "data" with
    | text text =>
      have required : requireText fields "data" = .ok text := by
        rw [requireText, hdata]
      rw [decodeResource, required, Except.bind_ok, Except.bind_eq_error_iff,
        decodeData_eq_foreignData_iff]
      constructor
      · rintro (foreign | ⟨bytes, -, h⟩)
        · exact ⟨fields, text, rfl, hdata, foreign⟩
        · refine absurd h (Except.bind_ne_error (requireText_ne_foreignData _ _) fun mimeType => ?_)
          refine Except.bind_ne_error (decodeBag_ne_foreignData _) fun metadata => ?_
          simp
      · rintro ⟨fields', text', hentry, hdata', foreign⟩
        cases hentry
        rw [hdata] at hdata'
        cases hdata'
        exact .inl foreign
    | _ => simp [decodeResource, requireText, hdata, Except.bind_error, HoldsForeignData]
  | _ => simp [decodeResource, HoldsForeignData]

/-- The members of a document of which everything up to the data of some resource can be decoded,
and that data holds a point outside ASCII. -/
structure ReachesForeignData (members : List (Wide × Json Wide)) : Prop where
  content : ∃ node, decodeNode (Json.member members "content") = .ok node
  metadata : ∃ bag, decodeBag (Json.member members "metadata") = .ok bag
  source : ∃ info, decodeSource (Json.member members "source") = .ok info
  resource : ∃ before id entry after,
    Json.member members "resources" = .object (before ++ (id, entry) :: after) ∧
      (∀ e ∈ before, ∃ r, decodeResource e.1 e.2 = .ok r) ∧ HoldsForeignData entry

lemma decodeResources_eq_foreignData_iff (table : List (Wide × Json Wide)) :
    decodeResources table = .error .foreignData ↔
      ∃ before id entry after, table = before ++ (id, entry) :: after ∧
        (∀ e ∈ before, ∃ r, decodeResource e.1 e.2 = .ok r) ∧ HoldsForeignData entry := by
  have first : decodeResources table = .error .foreignData ↔
      ∃ before e after, table = before ++ e :: after ∧
        (∀ b ∈ before, ∃ r, decodeResource b.1 b.2 = .ok r) ∧
          decodeResource e.1 e.2 = .error .foreignData :=
    Except.foldlM_map_eq_error_iff
  simpa only [decodeResource_eq_foreignData_iff, Prod.exists] using first

theorem decode_eq_foreignData_iff (members : List (Wide × Json Wide)) :
    decode (.object members) = .error .foreignData ↔ ReachesForeignData members := by
  simp only [decode, Except.bind_eq_error_iff, decodeNode, decodeLevels_ne_foreignData,
    decodeBag_ne_foreignData, decodeSource_ne_foreignData, decodeTable_ne_foreignData,
    decodeResources_eq_foreignData_iff, false_or, reduceCtorEq, and_false, exists_false, or_false]
  constructor
  · rintro ⟨node, hnode, bag, hbag, info, hinfo, table, htable, before, id, entry, after, rfl, h⟩
    refine ⟨⟨node, hnode⟩, ⟨bag, hbag⟩, ⟨info, hinfo⟩, before, id, entry, after, ?_, h⟩
    unfold decodeTable at htable
    split at htable
    · next hobject =>
      cases htable
      exact hobject
    · split at htable
      · cases htable
      · simp at htable
  · rintro ⟨⟨node, hnode⟩, ⟨bag, hbag⟩, ⟨info, hinfo⟩, before, id, entry, after, htable, h⟩
    refine ⟨node, hnode, bag, hbag, info, hinfo, _, ?_, before, id, entry, after, rfl, h⟩
    rw [htable]
    rfl

/-- What a reader may answer: a document with a document node for its root, or one of the two
errors of input. -/
def Disciplined : ReadResult Wide → Prop
  | .ok outcome => outcome.value.content.kind = Kind.document.widen
  | .error (.malformed _) => True
  | .error (.dialect _) => True
  | .error (.options _) => False
  | .error .foreignData => False

instance : DecidablePred Disciplined
  | .ok outcome => inferInstanceAs (Decidable (outcome.value.content.kind = Kind.document.widen))
  | .error (.malformed _) => inferInstanceAs (Decidable True)
  | .error (.dialect _) => inferInstanceAs (Decidable True)
  | .error (.options _) => inferInstanceAs (Decidable False)
  | .error .foreignData => inferInstanceAs (Decidable False)

lemma readVersion_eq_ok_iff (members : List (Wide × Json Wide)) :
    readVersion members = .ok () ↔ Json.member? members markerName = some (.int version) := by
  unfold readVersion
  split
  · next h => simp [h]
  · next n h =>
    rw [h]
    split <;> simp_all
  · next found hint h =>
    rw [h]
    simp only [reduceCtorEq, Option.some.injEq, false_iff]
    exact hint version

lemma disciplined_readVersion {members : List (Wide × Json Wide)} {error : ReadError}
    (h : readVersion members = .error error) : Disciplined (.error error) := by
  unfold readVersion at h
  split at h
  · cases h
    trivial
  · split at h
    · cases h
    · cases h
      trivial
  · cases h
    trivial

theorem disciplined_readDocument_iff (value : Json Wide) (warnings : List Warning) :
    Disciplined ((readDocument value).map fun doc => ⟨doc, warnings⟩) ↔
      ¬∃ members, value = .object members ∧
        Json.member? members markerName = some (.int version) ∧ ReachesForeignData members := by
  cases value with
  | object members =>
    simp only [Json.object.injEq, exists_eq_left', readDocument, ← readVersion_eq_ok_iff,
      ← decode_eq_foreignData_iff]
    cases hversion : readVersion members with
    | error error => simpa [Except.bind_error, Except.map] using disciplined_readVersion hversion
    | ok _ =>
      rw [Except.bind_ok]
      cases hdecode : decode (.object members) with
      | ok doc =>
        by_cases hroot : doc.content.kind = Kind.document.widen
        · simp [hroot, Except.map, Disciplined]
        · simp [hroot, Except.map, Disciplined]
      | error fault => cases fault <;> simp [Except.map, Disciplined]
  | _ => simp [readDocument, Except.map, Disciplined]

/-- A document with one resource, whose data is a single accented letter. -/
def foreignText : String :=
  "\x7b\"docshift\": 1, \"content\": \x7b\"kind\": \"document\"\x7d, " ++
    "\"resources\": \x7b\"r\": \x7b\"data\": \"é\"\x7d\x7d\x7d"

end Interchange.Native
