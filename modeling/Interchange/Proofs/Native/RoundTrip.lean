import Interchange.Native.Codec
import Interchange.Proofs.Document.Properties
import Interchange.Proofs.Failure
import Interchange.Proofs.Text.Encoding

/-!
# The native form is lossless

Decoding undoes encoding for every document whose tree stays within the limit of depth, and
refuses every other with that as the reason. A tree that is too deep is found out at the first
node, in document order, that lies below the limit.
-/
namespace Interchange.Native

lemma decodeBag_toJson (bag : Bag Wide) : decodeBag (Bag.toJson bag) = .ok bag := by
  rw [Bag.toJson, decodeBag, Bag.ofMembers_toJsonFields]
  rfl

lemma decodeSpan_encodeSpan (span : Option Span) : decodeSpan (encodeSpan span) = .ok span := by
  cases span with
  | none => rfl
  | some span =>
    have h := span.ordered
    have ordered : (0 : Int) ≤ span.start ∧ (span.start : Int) ≤ span.stop := by omega
    simp [encodeSpan, decodeSpan, Span.ofInts?, ordered]

lemma ofName?_name (kind : Kind Wide) : Kind.ofName? kind.name = some kind := by
  rw [Kind.ofName?, dif_pos kind.nonempty]

lemma encodeNodes_eq_map (nodes : List (Node Wide)) : encodeNodes nodes = nodes.map encodeNode := by
  induction nodes with
  | nil => rfl
  | cons node nodes ih => rw [encodeNodes, ih, List.map_cons]

/-- A forest is read back tree by tree; the first tree that is too deep ends it. -/
lemma mapM_decodeLevels_encodeNodes {levels : ℕ}
    (h : ∀ node : Node Wide, decodeLevels levels (encodeNode node) =
      if node.depth < levels then .ok node else .error .tooDeep) (nodes : List (Node Wide)) :
    (encodeNodes nodes).mapM (decodeLevels levels) =
      if Node.depthBelow nodes ≤ levels then .ok nodes else .error .tooDeep := by
  have hall := Except.mapM_ite h nodes
  rw [List.map_id'] at hall
  rw [encodeNodes_eq_map, List.mapM_map, if_congr Node.depthBelow_le_iff rfl rfl]
  exact hall

/-- A tree fits into a number of levels when it has fewer levels below its root. -/
theorem decodeLevels_encodeNode (levels : ℕ) (node : Node Wide) :
    decodeLevels levels (encodeNode node) =
      if node.depth < levels then .ok node else .error .tooDeep := by
  induction levels generalizing node with
  | zero => rfl
  | succ levels ih =>
    obtain ⟨kind, props, children, span⟩ := node
    have forest := mapM_decodeLevels_encodeNodes ih children
    simp only [encodeNode, decodeLevels, requireText, Json.member_cons, Wide.ofString_inj,
      String.reduceEq, if_true, if_false, decodeSpan_encodeSpan, decodeItems, decodeBag_toJson, Except.bind_ok,
      ofName?_name, forest, Node.depth, Nat.lt_succ_iff]
    split_ifs <;> rfl

lemma decodeData_encode (id : Wide) (data : ByteArray) :
    decodeData id (Text.Base64.encode data) = .ok data := by
  have ascii : (Wide.ofString (Text.Base64.encode data)).points.all Point.isAscii = true := by
    simpa [Wide.ofString, Point.isAscii] using Text.Base64.encode_isAscii data
  rw [decodeData, if_pos ascii, Wide.whole_ofString, Text.Base64.decode?_encode]

lemma decodeResource_encodeResource (id : Wide) (resource : Resource Wide) :
    decodeResource id (encodeResource resource) = .ok resource := by
  obtain ⟨mimeType, data, name, metadata⟩ := resource
  cases name <;>
    simp only [encodeResource, decodeResource, requireText, Json.member_cons, Wide.ofString_inj,
      String.reduceEq, if_true, if_false, Except.bind_ok, decodeData_encode, decodeBag_toJson]

theorem decodeResources_encode (table : ResourceTable Wide) :
    decodeResources (table.entries.map fun e => (e.1.text, encodeResource e.2)) = .ok table := by
  refine OrderedMap.foldlM_insert_entries (fun m e => ?_) table
  change (decodeResource e.1.text (encodeResource e.2)).map (m.insert e.1) = _
  rw [decodeResource_encodeResource]
  rfl

lemma decodeSource_encodeSource (source : Option (SourceInfo Wide)) :
    decodeSource (encodeSource source) = .ok source := by
  cases source with
  | none => rfl
  | some info =>
    simp only [encodeSource, decodeSource, requireText, Json.member_cons, Wide.ofString_inj,
      String.reduceEq, if_true, if_false, Except.bind_ok, decodeBag_toJson]

/-- A document is decoded to itself, unless a node of its tree has more than 256 nodes above it. -/
theorem decode_encode (doc : Document Wide) :
    decode (encode doc) = if doc.content.depth ≤ 256 then .ok doc else .error .tooDeep := by
  have tree : decodeNode (encodeNode doc.content) =
      if doc.content.depth ≤ 256 then .ok doc.content else .error .tooDeep := by
    rw [decodeNode, decodeLevels_encodeNode]
    exact if_congr Nat.lt_succ_iff rfl rfl
  simp only [encode, decode, markerName, Json.member_cons, Wide.ofString_inj, String.reduceEq,
    if_true, if_false, tree]
  split_ifs with h
  · simp only [Except.bind_ok, decodeBag_toJson, decodeSource_encodeSource, decodeTable,
      decodeResources_encode]
  · rfl

end Interchange.Native
