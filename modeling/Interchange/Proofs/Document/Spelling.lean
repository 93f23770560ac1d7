import Interchange.Document.Respelling
import Interchange.Proofs.OrderedMap

/-!
# The texts of a document

Everything in a document that is text, and what becomes of it under a change of texts. A change that
another one takes back is taken back in a whole document, the order of names and resources included:
nothing is lost of a document of characters that is widened and narrowed again, and where it is wide
it has no half of a pair.
-/
namespace Interchange

variable {τ : Type}

namespace Value

mutual

/-- The texts and the names in a value, at any depth. -/
def texts : Value τ → List τ
  | .text s => [s]
  | .list items => textsOfItems items
  | .map fields => textsOfFields fields
  | _ => []

def textsOfItems : List (Value τ) → List τ
  | [] => []
  | v :: vs => texts v ++ textsOfItems vs

def textsOfFields : List (τ × Value τ) → List τ
  | [] => []
  | (name, v) :: fields => name :: (texts v ++ textsOfFields fields)

end

lemma forall_mem_textsOfFields_iff {P : τ → Prop} {fields : List (τ × Value τ)} :
    (∀ text ∈ textsOfFields fields, P text) ↔ ∀ e ∈ fields, P e.1 ∧ ∀ text ∈ e.2.texts, P text := by
  induction fields with
  | nil => exact iff_of_true (List.forall_mem_nil _) (List.forall_mem_nil _)
  | cons e fields ih =>
    rw [textsOfFields, List.forall_mem_cons, List.forall_mem_append, ih, List.forall_mem_cons,
      and_assoc]

end Value

namespace Bag

/-- The texts and the names in a bag, at any depth. -/
def texts (bag : Bag τ) : List τ := Value.textsOfFields bag.entries

end Bag

namespace Document

variable [Textual τ]

/-- The properties of the nodes, of the whole, of the source and of the resources. -/
def bags (doc : Document τ) : List (Bag τ) :=
  doc.content.walk.map Node.props ++ doc.metadata ::
    (doc.source.toList.map SourceInfo.metadata ++ doc.resources.values.map Resource.metadata)

/-- The names of things: the kinds of the nodes, the format of the source, and the identifiers, types
and names of the resources. -/
def labels (doc : Document τ) : List τ :=
  doc.content.walk.map (fun node => node.kind.name) ++
    (doc.source.toList.map SourceInfo.format ++ doc.resources.entries.flatMap fun e =>
      e.1.text :: e.2.mimeType :: e.2.name.toList)

/-- Everything in a document that is text. -/
def texts (doc : Document τ) : List τ := doc.labels ++ doc.bags.flatMap Bag.texts

/-- The texts are told part by part: of the nodes, of the whole, of the source, of the resources. -/
theorem forall_mem_texts_iff {P : τ → Prop} {doc : Document τ} : (∀ text ∈ doc.texts, P text) ↔
    (∀ part ∈ doc.content.walk, P part.kind.name ∧ ∀ text ∈ Bag.texts part.props, P text) ∧
      (∀ text ∈ Bag.texts doc.metadata, P text) ∧
      (∀ info ∈ doc.source, P info.format ∧ ∀ text ∈ Bag.texts info.metadata, P text) ∧
      ∀ e ∈ doc.resources.entries, (∀ text ∈ e.1.text :: e.2.mimeType :: e.2.name.toList, P text) ∧
        ∀ text ∈ Bag.texts e.2.metadata, P text := by
  have hlabels : (∀ text ∈ doc.labels, P text) ↔
      (∀ node ∈ doc.content.walk, P node.kind.name) ∧ (∀ info ∈ doc.source, P info.format) ∧
        ∀ e ∈ doc.resources.entries, ∀ text ∈ e.1.text :: e.2.mimeType :: e.2.name.toList, P text := by
    simp only [labels, List.forall_mem_append, List.forall_mem_map, Option.mem_toList,
      Option.mem_def, List.forall_mem_flatMap]
  have hbags : (∀ text ∈ doc.bags.flatMap Bag.texts, P text) ↔
      (∀ node ∈ doc.content.walk, ∀ text ∈ Bag.texts node.props, P text) ∧
        (∀ text ∈ Bag.texts doc.metadata, P text) ∧
        (∀ info ∈ doc.source, ∀ text ∈ Bag.texts info.metadata, P text) ∧
        ∀ e ∈ doc.resources.entries, ∀ text ∈ Bag.texts e.2.metadata, P text := by
    simp only [bags, List.forall_mem_flatMap, List.forall_mem_append, List.forall_mem_cons,
      List.forall_mem_map, Option.mem_toList, Option.mem_def, OrderedMap.values]
  rw [texts, List.forall_mem_append, hlabels, hbags]
  simp only [forall_and]
  tauto

end Document

namespace Respelling

variable {σ : Type} [Textual τ] [Textual σ] {change : Respelling τ σ} {back : Respelling σ τ}

mutual

theorem value_value (h : ∀ text, back.spell (change.spell text) = text) :
    ∀ v : Value τ, back.value (change.value v) = v
  | .text s => by rw [value, value, h]
  | .int _ => rfl
  | .float _ => rfl
  | .bool _ => rfl
  | .list vs => by rw [value, value, items_items h]
  | .map fs => by rw [value, value, fields_fields h]

theorem items_items (h : ∀ text, back.spell (change.spell text) = text) :
    ∀ vs : List (Value τ), back.items (change.items vs) = vs
  | [] => rfl
  | v :: vs => by rw [items, items, value_value h v, items_items h vs]

theorem fields_fields (h : ∀ text, back.spell (change.spell text) = text) :
    ∀ fs : List (τ × Value τ), back.fields (change.fields fs) = fs
  | [] => rfl
  | (name, v) :: fs => by rw [fields, fields, h, value_value h v, fields_fields h fs]

end

lemma kind_kind (h : ∀ text, back.spell (change.spell text) = text) (kind : Kind τ) :
    back.kind (change.kind kind) = kind := by
  obtain ⟨name, hname⟩ := kind
  simp only [Respelling.kind, h]

variable {P : σ → Prop}

mutual

theorem forall_mem_texts_value (hP : ∀ text, P (change.spell text)) :
    ∀ v : Value τ, ∀ text ∈ (change.value v).texts, P text
  | .text s => List.forall_mem_singleton.2 (hP s)
  | .int _ => List.forall_mem_nil _
  | .float _ => List.forall_mem_nil _
  | .bool _ => List.forall_mem_nil _
  | .list vs => forall_mem_texts_items hP vs
  | .map fs => forall_mem_texts_fields hP fs

theorem forall_mem_texts_items (hP : ∀ text, P (change.spell text)) :
    ∀ vs : List (Value τ), ∀ text ∈ Value.textsOfItems (change.items vs), P text
  | [] => List.forall_mem_nil _
  | v :: vs =>
    List.forall_mem_append.2 ⟨forall_mem_texts_value hP v, forall_mem_texts_items hP vs⟩

theorem forall_mem_texts_fields (hP : ∀ text, P (change.spell text)) :
    ∀ fs : List (τ × Value τ), ∀ text ∈ Value.textsOfFields (change.fields fs), P text
  | [] => List.forall_mem_nil _
  | (name, v) :: fs => List.forall_mem_cons.2 ⟨hP name,
      List.forall_mem_append.2 ⟨forall_mem_texts_value hP v, forall_mem_texts_fields hP fs⟩⟩

end

variable [DecidableEq σ]

lemma forall_mem_texts_bag (hP : ∀ text, P (change.spell text)) (bag : Bag τ) :
    ∀ text ∈ Bag.texts (change.bag bag), P text := by
  rw [Bag.texts, Value.forall_mem_textsOfFields_iff]
  intro e he
  obtain ⟨old, -, rfl⟩ := List.mem_map.1 (OrderedMap.mem_of_mem_ofList he)
  exact ⟨hP old.1, forall_mem_texts_value hP old.2⟩

mutual

theorem forall_mem_texts_node (hP : ∀ text, P (change.spell text)) : ∀ node : Node τ,
    ∀ part ∈ (change.node node).walk, P part.kind.name ∧ ∀ text ∈ Bag.texts part.props, P text
  | ⟨kind, props, children, span⟩ => by
    rw [node, Node.walk_eq, List.forall_mem_cons]
    exact ⟨⟨hP kind.name, forall_mem_texts_bag hP props⟩, forall_mem_texts_nodes hP children⟩

theorem forall_mem_texts_nodes (hP : ∀ text, P (change.spell text)) : ∀ nodes : List (Node τ),
    ∀ part ∈ Node.walkAll (change.nodes nodes),
      P part.kind.name ∧ ∀ text ∈ Bag.texts part.props, P text
  | [] => List.forall_mem_nil _
  | node :: nodes => by
    rw [Respelling.nodes, Node.walkAll, List.forall_mem_append]
    exact ⟨forall_mem_texts_node hP node, forall_mem_texts_nodes hP nodes⟩

end

/-- Every text after a change is one that the change makes. -/
theorem forall_mem_texts_document (hP : ∀ text, P (change.spell text)) (doc : Document τ) :
    ∀ text ∈ (change.document doc).texts, P text := by
  refine Document.forall_mem_texts_iff.2 ⟨forall_mem_texts_node hP doc.content,
    forall_mem_texts_bag hP doc.metadata, fun info hinfo => ?_, fun e he => ?_⟩
  · obtain ⟨old, -, rfl⟩ := Option.map_eq_some_iff.1 hinfo
    exact ⟨hP old.format, forall_mem_texts_bag hP old.metadata⟩
  · obtain ⟨old, -, rfl⟩ := List.mem_map.1 (OrderedMap.mem_of_mem_ofList he)
    refine ⟨?_, forall_mem_texts_bag hP old.2.metadata⟩
    refine List.forall_mem_cons.2 ⟨hP old.1.text, List.forall_mem_cons.2 ⟨hP old.2.mimeType, ?_⟩⟩
    intro text htext
    obtain ⟨name, -, rfl⟩ := Option.map_eq_some_iff.1 (Option.mem_toList.1 htext)
    exact hP name

variable [DecidableEq τ]

lemma bag_bag (h : ∀ text, back.spell (change.spell text) = text) (bag : Bag τ) :
    back.bag (change.bag bag) = bag :=
  OrderedMap.recast_recast h (value_value h) bag

mutual

theorem node_node (h : ∀ text, back.spell (change.spell text) = text) :
    ∀ node : Node τ, back.node (change.node node) = node
  | ⟨kind, props, children, span⟩ => by
    rw [node, node, kind_kind h, bag_bag h, nodes_nodes h children]

theorem nodes_nodes (h : ∀ text, back.spell (change.spell text) = text) :
    ∀ nodes : List (Node τ), back.nodes (change.nodes nodes) = nodes
  | [] => rfl
  | node :: nodes => by
    rw [Respelling.nodes, Respelling.nodes, node_node h node, nodes_nodes h nodes]

end

lemma resource_resource (h : ∀ text, back.spell (change.spell text) = text)
    (resource : Resource τ) : back.resource (change.resource resource) = resource := by
  obtain ⟨mimeType, data, name, metadata⟩ := resource
  cases name <;> simp [Respelling.resource, h, bag_bag h]

theorem document_document (h : ∀ text, back.spell (change.spell text) = text)
    (doc : Document τ) : back.document (change.document doc) = doc := by
  obtain ⟨content, metadata, source, resources⟩ := doc
  have hid (id : ResourceId τ) : back.id (change.id id) = id := congrArg ResourceId.mk (h id.text)
  have hresources := OrderedMap.recast_recast hid (resource_resource h) resources
  cases source <;> simp [document, node_node h, bag_bag h, hresources, Respelling.source, h]

end Respelling

theorem Document.narrow_widen (doc : Document) : doc.widen.narrow = doc :=
  Respelling.document_document Wide.whole_ofString doc

end Interchange
