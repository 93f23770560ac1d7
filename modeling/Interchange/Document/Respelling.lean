import Interchange.Document.Basic

/-!
# Documents of wide texts

A document that is read from JSON has wide texts. A document of characters alone is wide as it
stands. The other way round the replacement character is put for every half, and of two names that
become one by that the last counts.
-/
namespace Interchange

/-- A change of texts that makes no text empty. -/
structure Respelling (τ σ : Type) [Textual τ] [Textual σ] where
  spell : τ → σ
  keepsFilled : ∀ text, text ≠ Textual.empty → spell text ≠ Textual.empty

namespace Respelling

variable {τ σ : Type} [Textual τ] [Textual σ]

mutual

def value (change : Respelling τ σ) : Value τ → Value σ
  | .text s => .text (change.spell s)
  | .int n => .int n
  | .float x => .float x
  | .bool b => .bool b
  | .list items => .list (change.items items)
  | .map fields => .map (change.fields fields)

def items (change : Respelling τ σ) : List (Value τ) → List (Value σ)
  | [] => []
  | v :: vs => change.value v :: change.items vs

def fields (change : Respelling τ σ) : List (τ × Value τ) → List (σ × Value σ)
  | [] => []
  | (name, v) :: fs => (change.spell name, change.value v) :: change.fields fs

end

def kind (change : Respelling τ σ) (kind : Kind τ) : Kind σ :=
  ⟨change.spell kind.name, change.keepsFilled kind.name kind.nonempty⟩

variable [DecidableEq σ]

def bag (change : Respelling τ σ) (bag : Bag τ) : Bag σ := bag.recast change.spell change.value

mutual

def node (change : Respelling τ σ) : Node τ → Node σ
  | ⟨kind, props, children, span⟩ =>
    ⟨change.kind kind, change.bag props, change.nodes children, span⟩

def nodes (change : Respelling τ σ) : List (Node τ) → List (Node σ)
  | [] => []
  | node :: nodes => change.node node :: change.nodes nodes

end

def id (change : Respelling τ σ) (id : ResourceId τ) : ResourceId σ := ⟨change.spell id.text⟩

def resource (change : Respelling τ σ) (resource : Resource τ) : Resource σ :=
  ⟨change.spell resource.mimeType, resource.data, resource.name.map change.spell,
    change.bag resource.metadata⟩

def source (change : Respelling τ σ) (info : SourceInfo τ) : SourceInfo σ :=
  ⟨change.spell info.format, change.bag info.metadata⟩

def document (change : Respelling τ σ) (doc : Document τ) : Document σ :=
  ⟨change.node doc.content, change.bag doc.metadata, doc.source.map change.source,
    doc.resources.recast change.id change.resource⟩

/-- Characters taken as points. -/
def widening : Respelling String Wide where
  spell := Wide.ofString
  keepsFilled text hfilled hempty := by
    have hpoints : text.toList.map Point.char = [] := congrArg Wide.points hempty
    exact hfilled (String.toList_eq_nil_iff.1 (List.map_eq_nil_iff.1 hpoints))

/-- The replacement character put for halves. -/
def narrowing : Respelling Wide String where
  spell := Wide.whole
  keepsFilled text hfilled hempty := by
    have hpoints : text.points.map Point.whole = [] := by
      rw [← String.toList_ofList (l := text.points.map Point.whole)]
      exact congrArg String.toList hempty
    exact hfilled (congrArg Wide.mk (List.map_eq_nil_iff.1 hpoints))

end Respelling

def Kind.widen (kind : Kind) : Kind Wide := Respelling.widening.kind kind

def Document.widen (doc : Document) : Document Wide := Respelling.widening.document doc

def Document.narrow (doc : Document Wide) : Document := Respelling.narrowing.document doc

end Interchange
