import Interchange.Proofs.Failure
import Interchange.Proofs.OrderedMap
import Interchange.Workspace

/-!
# Runs of a workspace

What can be done in a workspace is a step, and a run is any list of steps; a step that fails leaves
everything as it was. A step does one of four things: it takes an identifier, turns to another
document, edits one object of the current document, or adds objects and puts one sheet under a name.
Everything that holds along runs is derived from this.
-/
namespace Interchange

/-- The objects that a sheet refers to. -/
inductive Sheet.Holds (sheet : Sheet) : ℕ → Prop
  | content : sheet.Holds sheet.content
  | metadata : sheet.Holds sheet.metadata
  | origin {origin : Origin} (h : sheet.origin = some origin) : sheet.Holds origin.metadata
  | resource {id : ResourceId} {n : ℕ} (h : sheet.resources.get? id = some n) : sheet.Holds n

/-- The numbers of objects that are handed over. -/
def Given.numbers {α : Type} : Given α → List ℕ
  | .fresh _ => []
  | .held n => [n]

namespace Workspace

inductive Step where
  | insert (id : ResourceId) (given : Given Resource)
  | embed (given : Given Resource)
  | nextId
  | remove (id : ResourceId)
  | rename (id : ResourceId) (name : String)
  | editResource (id : ResourceId) (name : String) (value : Json)
  | setContent (given : Given Node)
  | editContent (path : List ℕ) (name : String) (value : Json)
  | setMetadata (given : Given Bag)
  | editMetadata (name : String) (value : Json)
  | setSource (format : String) (given : Given Bag)
  | editSource (name : String) (value : Json)
  | copy (name : String)
  | transform (name : String) (transform : Transform) (room : ℕ)
  | switchTo (name : String)

namespace Step

def apply (space : Workspace) : Step → Except StepFault Workspace
  | .insert id given => .ok (space.insert id given)
  | .embed given => .ok (space.embed given).2
  | .nextId => .ok space.nextId.2
  | .remove id => .ok (space.remove id)
  | .rename id name => space.rename id name
  | .editResource id name value => space.editResource id name value
  | .setContent given => .ok (space.setContent given)
  | .editContent path name value => space.editContent path name value
  | .setMetadata given => .ok (space.setMetadata given)
  | .editMetadata name value => space.editMetadata name value
  | .setSource format given => .ok (space.setSource format given)
  | .editSource name value => space.editSource name value
  | .copy name => .ok (space.copy name)
  | .transform name change room => space.transform name change room
  | .switchTo name => space.switchTo name

/-- The workspace after a step, which is the same when the step fails. -/
def advance (space : Workspace) (step : Step) : Workspace :=
  match step.apply space with
  | .ok next => next
  | .error _ => space

/-- Whether a step takes an identifier from the source. -/
def mints : Step → Bool
  | .embed _ => true
  | .nextId => true
  | _ => false

/-- The identifiers that a step brings from elsewhere. -/
def restored : Step → List ResourceId
  | .insert id _ => [id]
  | _ => []

/-- The names that a step mentions. -/
def names : Step → List String
  | .copy name => [name]
  | .transform name _ _ => [name]
  | .switchTo name => [name]
  | _ => []

/-- The objects that are handed over in a step. -/
def brings : Step → List ℕ
  | .insert _ given => given.numbers
  | .embed given => given.numbers
  | .setContent given => given.numbers
  | .setMetadata given => given.numbers
  | .setSource _ given => given.numbers
  | _ => []

end Step

def run (space : Workspace) (steps : List Step) : Workspace := steps.foldl Step.advance space

variable {α : Type} [Kept α] {space next last : Workspace} {n : ℕ}

@[simp] theorem sheet_putSheet (space : Workspace) (sheet : Sheet) :
    (space.putSheet sheet).sheet = sheet := by
  simp [putSheet, Workspace.sheet]

/-- All objects of the first workspace are in the second, with their values. -/
structure Keeps (space next : Workspace) : Prop where
  size : space.cells.size ≤ next.cells.size
  cells : ∀ n < space.cells.size, next.cells[n]? = space.cells[n]?

/-- The second workspace has some more objects, and is otherwise like the first. -/
structure Grows (space next : Workspace) : Prop extends Keeps space next where
  ids : next.ids = space.ids
  sheets : next.sheets = space.sheets
  current : next.current = space.current

lemma Keeps.value_eq (h : Keeps space next) (hn : n < space.cells.size) :
    (next.value n : α) = space.value n := by
  rw [value, value, value?, value?, h.cells n hn]

lemma Keeps.trans (h : Keeps space next) (h' : Keeps next last) : Keeps space last where
  size := h.size.trans h'.size
  cells n hn := (h'.cells n (hn.trans_le h.size)).trans (h.cells n hn)

lemma Grows.refl (space : Workspace) : Grows space space := ⟨⟨le_rfl, fun _ _ => rfl⟩, rfl, rfl, rfl⟩

lemma Grows.trans (h : Grows space next) (h' : Grows next last) : Grows space last where
  toKeeps := h.toKeeps.trans h'.toKeeps
  ids := h'.ids.trans h.ids
  sheets := h'.sheets.trans h.sheets
  current := h'.current.trans h.current

lemma Grows.sheet (h : Grows space next) : next.sheet = space.sheet := by
  rw [Workspace.sheet, Workspace.sheet, h.sheets, h.current]

lemma grows_add (space : Workspace) (value : α) : Grows space (space.add value).2 := by
  refine ⟨⟨?_, fun n hn => ?_⟩, rfl, rfl, rfl⟩
  · rw [add, Array.size_push]
    exact Nat.le_succ _
  · rw [add, Array.getElem?_push, if_neg hn.ne]

lemma size_add (space : Workspace) (value : α) :
    (space.add value).2.cells.size = space.cells.size + 1 := Array.size_push _

lemma value_add (space : Workspace) (value : α) :
    (space.add value).2.value (space.add value).1 = value := by
  rw [add, Workspace.value, value?, Array.getElem?_push, if_pos rfl, Option.bind_some,
    Kept.ofCell?_toCell]
  rfl

/-- The value of what a caller hands over. -/
def valueOf (space : Workspace) : Given α → α
  | .fresh value => value
  | .held n => space.value n

/-- What is handed over is the object with the number, if that is one of the kind, or a new one. -/
lemma accept_cases (space : Workspace) (given : Given α) :
    (∃ n, given = .held n ∧ n < space.cells.size ∧ space.accept given = (n, space)) ∨
      space.accept given = space.add (space.valueOf given) := by
  cases given with
  | fresh value => exact .inr rfl
  | held n =>
    rw [accept, valueOf, value]
    cases hvalue : (space.value? n : Option α) with
    | none => exact .inr rfl
    | some value =>
      refine .inl ⟨n, rfl, ?_, rfl⟩
      by_contra hout
      rw [value?, Array.getElem?_eq_none (Nat.le_of_not_lt hout)] at hvalue
      cases hvalue

lemma grows_accept (space : Workspace) (given : Given α) : Grows space (space.accept given).2 := by
  rcases accept_cases space given with ⟨n, -, -, haccept⟩ | haccept <;> rw [haccept]
  · exact .refl space
  · exact grows_add space _

lemma value_accept (space : Workspace) (given : Given α) :
    (space.accept given).2.value (space.accept given).1 = space.valueOf given := by
  rcases accept_cases space given with ⟨n, rfl, -, haccept⟩ | haccept <;> rw [haccept]
  · rfl
  · exact value_add space _

/-- Where an object is from that a step puts into a sheet: the current sheet has it, the step brings
it, or it is new. -/
inductive Comes (step : Step) (space next : Workspace) (n : ℕ) : Prop
  | kept (h : space.sheet.Holds n)
  | brought (h : n ∈ step.brings) (there : n < space.cells.size)
  | new (h : space.cells.size ≤ n) (there : n < next.cells.size)

/-- What a step can do. -/
inductive Effect (step : Step) (space : Workspace) : Workspace → Prop
  | count (mints : step.mints = true) :
    Effect step space { space with ids.next := space.ids.next + 1 }
  | turn {name : String} (mints : step.mints = false) (named : name ∈ step.names)
    (there : space.sheets.contains name = true) : Effect step space { space with current := name }
  | edit {n : ℕ} {cells : Array Cell} (mints : step.mints = false) (holds : space.sheet.Holds n)
    (size : cells.size = space.cells.size) (others : ∀ m, n ≠ m → cells[m]? = space.cells[m]?) :
    Effect step space { space with cells }
  | put {next : Workspace} {name : String} {sheet : Sheet}
    (ids : next.ids =
      if step.mints then { space.ids with next := space.ids.next + 1 } else space.ids)
    (current : next.current = space.current) (keeps : Keeps space next)
    (named : name = space.current ∨ name ∈ step.names)
    (sheets : next.sheets = space.sheets.insert name sheet)
    (comes : ∀ n, sheet.Holds n → Comes step space next n)
    (known : ∀ id n, sheet.resources.get? id = some n → id ∈ step.restored ∨
      step.mints = true ∧ id = space.ids.nth space.ids.next ∨
      ∃ m, space.sheet.resources.get? id = some m) : Effect step space next

/-- One part of the current sheet is replaced by an object that is handed over. -/
lemma effect_accept {step : Step} {given : Given α} {sheet : Sheet} (ids : IdSource)
    (hids : ids = if step.mints then { space.ids with next := space.ids.next + 1 } else space.ids)
    (hbrings : given.numbers ⊆ step.brings)
    (hholds : ∀ n, sheet.Holds n →
      space.sheet.Holds n ∨ n = (accept { space with ids } given).1)
    (hknown : ∀ id n, sheet.resources.get? id = some n → id ∈ step.restored ∨
      step.mints = true ∧ id = space.ids.nth space.ids.next ∨
      ∃ m, space.sheet.resources.get? id = some m) :
    Effect step space ((accept { space with ids } given).2.putSheet sheet) := by
  have hgrows := grows_accept { space with ids } given
  have hsheets : ((accept { space with ids } given).2.putSheet sheet).sheets =
      space.sheets.insert space.current sheet := by
    rw [putSheet, hgrows.sheets, hgrows.current]
  refine .put (hgrows.ids.trans hids) hgrows.current ⟨hgrows.size, hgrows.cells⟩ (.inl rfl) hsheets
    (fun n hn => ?_) hknown
  rcases hholds n hn with hkept | rfl
  · exact .kept hkept
  · rcases accept_cases { space with ids } given with ⟨n, rfl, hn, haccept⟩ | haccept
    · rw [haccept]
      exact .brought (hbrings List.mem_cons_self) hn
    · rw [haccept]
      exact .new le_rfl ((Nat.lt_succ_self _).trans_eq (size_add { space with ids } _).symm)

lemma holds_insert {sheet : Sheet} {id : ResourceId} {m : ℕ}
    (h : ({ sheet with resources := sheet.resources.insert id m } : Sheet).Holds n) :
    sheet.Holds n ∨ n = m := by
  cases h with
  | content => exact .inl .content
  | metadata => exact .inl .metadata
  | origin h => exact .inl (.origin h)
  | resource h =>
    rw [OrderedMap.get?_insert] at h
    split at h
    · exact .inr (Option.some.inj h).symm
    · exact .inl (.resource h)

lemma get?_insert_cases {table : OrderedMap ResourceId ℕ} {id k : ResourceId} {m : ℕ}
    (h : (table.insert id m).get? k = some n) : k = id ∨ table.get? k = some n := by
  rw [OrderedMap.get?_insert] at h
  split at h
  · next heq => exact .inl heq.symm
  · exact .inr h

lemma insert_eq (space : Workspace) (id : ResourceId) (given : Given Resource) :
    space.insert id given = (space.accept given).2.putSheet { space.sheet with
      resources := space.sheet.resources.insert id (space.accept given).1 } := by
  have hsheet := (grows_accept space given).sheet
  change (space.accept given).2.putSheet { (space.accept given).2.sheet with
    resources := (space.accept given).2.sheet.resources.insert id (space.accept given).1 } = _
  rw [hsheet]

lemma effect_edit {step : Step} (hmints : step.mints = false) (hholds : space.sheet.Holds n)
    (value : α) : Effect step space (space.edit n value) := by
  refine .edit hmints hholds (Array.size_setIfInBounds ..) fun m hm => ?_
  rw [Array.getElem?_setIfInBounds, if_neg hm]

lemma effect_editBag {step : Step} (hmints : step.mints = false) (hholds : space.sheet.Holds n)
    {name : String} {value : Json} (h : space.editBag n name value = .ok next) :
    Effect step space next := by
  obtain ⟨bag, -, h⟩ := Except.bind_eq_ok_iff.1 h
  cases h
  exact effect_edit hmints hholds bag

/-- What a document is made of is new, all of it. -/
structure Renders (space next : Workspace) (sheet : Sheet) (doc : Document) : Prop
    extends Grows space next where
  fresh : ∀ n, sheet.Holds n → space.cells.size ≤ n ∧ n < next.cells.size
  document : next.document sheet = doc

lemma grows_addOrigin (space : Workspace) (source : Option SourceInfo) :
    Grows space (space.addOrigin source).2 := by
  cases source with
  | none => exact .refl space
  | some info => exact grows_add space info.metadata

lemma grows_addTable (space : Workspace) (table : ResourceTable) :
    Grows space (space.addTable table).2 := by
  refine ⟨⟨?_, fun n hn => ?_⟩, rfl, rfl, rfl⟩
  · rw [addTable, Array.size_append]
    exact Nat.le_add_right _ _
  · rw [addTable, Array.getElem?_append_left hn]

lemma document_addOrigin (space : Workspace) (source : Option SourceInfo) :
    ((space.addOrigin source).1.map fun origin =>
      (⟨origin.format, (space.addOrigin source).2.value origin.metadata⟩ : SourceInfo)) = source := by
  cases source with
  | none => rfl
  | some info =>
    have hvalue := value_add space info.metadata
    rw [addOrigin, Option.map_some, hvalue]

lemma fresh_addOrigin {source : Option SourceInfo} {origin : Origin}
    (h : (space.addOrigin source).1 = some origin) :
    space.cells.size ≤ origin.metadata ∧
      origin.metadata < (space.addOrigin source).2.cells.size := by
  cases source with
  | none => cases h
  | some info =>
    obtain rfl := Option.some.inj h
    exact ⟨le_rfl, (Nat.lt_succ_self _).trans_eq (size_add space info.metadata).symm⟩

lemma document_addTable (space : Workspace) (table : ResourceTable) :
    (space.addTable table).1.mapValues (space.addTable table).2.value = table := by
  refine OrderedMap.eq_of_entries (List.ext_getElem ?_ fun i hi hi' => ?_)
  · simp [addTable, OrderedMap.mapValues, OrderedMap.numbered, OrderedMap.keys]
  · simp [addTable, OrderedMap.mapValues, OrderedMap.numbered, OrderedMap.keys, OrderedMap.values,
      value, value?, Kept.ofCell?_toCell, hi']

lemma fresh_addTable {table : ResourceTable} {id : ResourceId}
    (h : (space.addTable table).1.get? id = some n) :
    space.cells.size ≤ n ∧ n < (space.addTable table).2.cells.size := by
  have hmem : (id, n) ∈ table.keys.zipIdx space.cells.size := OrderedMap.mem_of_lookup h
  obtain ⟨hle, hlt, -⟩ := List.mem_zipIdx hmem
  refine ⟨hle, hlt.trans_eq ?_⟩
  simp [addTable, OrderedMap.keys, OrderedMap.values]

/-- What is made for a document stands for it. -/
theorem renders_addDocument (space : Workspace) (doc : Document) :
    Renders space (space.addDocument doc).2 (space.addDocument doc).1 doc := by
  let first := (space.add doc.content).2
  let second := (first.add doc.metadata).2
  let third := (second.addOrigin doc.source).2
  have hfirst : Grows space first := grows_add space doc.content
  have hsecond : Grows first second := grows_add first doc.metadata
  have hthird : Grows second third := grows_addOrigin second doc.source
  have hlast : Grows third (third.addTable doc.resources).2 := grows_addTable third doc.resources
  have hafterSecond := hthird.trans hlast
  have hafterFirst := hsecond.trans hafterSecond
  have hfirstSize : first.cells.size = space.cells.size + 1 := size_add space doc.content
  have hsecondSize : second.cells.size = first.cells.size + 1 := size_add first doc.metadata
  have hsecondLe := hafterSecond.size
  have hthirdLe := hlast.size
  have hthirdGe := hthird.size
  change Renders space (third.addTable doc.resources).2 ⟨space.cells.size, first.cells.size,
    (second.addOrigin doc.source).1, (third.addTable doc.resources).1⟩ doc
  refine ⟨hfirst.trans hafterFirst, fun n hn => ?_, ?_⟩
  · cases hn with
    | content => exact ⟨le_rfl, by dsimp only; omega⟩
    | metadata => exact ⟨by dsimp only; omega, by dsimp only; omega⟩
    | origin h =>
      obtain ⟨hle, hlt⟩ := fresh_addOrigin h
      exact ⟨by omega, hlt.trans_le hthirdLe⟩
    | resource h =>
      obtain ⟨hle, hlt⟩ := fresh_addTable h
      exact ⟨by omega, hlt⟩
  · have hcontent : (third.addTable doc.resources).2.value space.cells.size = doc.content :=
      (hafterFirst.value_eq (by omega)).trans (value_add space doc.content)
    have hmetadata : (third.addTable doc.resources).2.value first.cells.size = doc.metadata :=
      (hafterSecond.value_eq (by omega)).trans (value_add first doc.metadata)
    have hsource : ((second.addOrigin doc.source).1.map fun origin =>
        (⟨origin.format, (third.addTable doc.resources).2.value origin.metadata⟩ : SourceInfo)) =
          doc.source := by
      refine Eq.trans (Option.map_congr fun origin horigin => ?_) (document_addOrigin second doc.source)
      rw [hlast.value_eq (fresh_addOrigin horigin).2]
    rw [Workspace.document, hcontent, hmetadata, hsource]
    exact congrArg (Document.mk doc.content doc.metadata doc.source)
      (document_addTable third doc.resources)

lemma effect_insert {step : Step} {id : ResourceId} {given : Given Resource}
    (hmints : step.mints = false) (hbrings : given.numbers ⊆ step.brings)
    (hid : id ∈ step.restored ∨ ∃ m, space.sheet.resources.get? id = some m) :
    Effect step space (space.insert id given) := by
  rw [insert_eq]
  refine effect_accept space.ids (by rw [hmints]; rfl) hbrings (fun n hn => holds_insert hn)
    fun k n hk => ?_
  rcases get?_insert_cases hk with rfl | hkept
  · exact hid.imp_right .inr
  · exact .inr (.inr ⟨n, hkept⟩)

lemma effect_embed (space : Workspace) (given : Given Resource) :
    Effect (.embed given) space (space.embed given).2 := by
  change Effect _ space (space.nextId.2.insert space.nextId.1 given)
  rw [insert_eq]
  refine effect_accept space.nextId.2.ids rfl (List.Subset.refl _) (fun n hn => holds_insert hn)
    fun k n hk => ?_
  rcases get?_insert_cases hk with rfl | hkept
  · exact .inr (.inl ⟨rfl, rfl⟩)
  · exact .inr (.inr ⟨n, hkept⟩)

lemma effect_remove (space : Workspace) (id : ResourceId) :
    Effect (.remove id) space (space.remove id) := by
  have hget {k : ResourceId} {n : ℕ} (h : (space.sheet.resources.erase id).get? k = some n) :
      space.sheet.resources.get? k = some n := by
    rw [OrderedMap.get?_erase] at h
    split at h
    · cases h
    · exact h
  have hsheets : (space.remove id).sheets = space.sheets.insert space.current
      { space.sheet with resources := space.sheet.resources.erase id } := rfl
  refine .put rfl rfl ⟨le_rfl, fun _ _ => rfl⟩ (.inl rfl) hsheets (fun n hn => ?_)
    fun k n hk => ?_
  · cases hn with
    | content => exact .kept .content
    | metadata => exact .kept .metadata
    | origin h => exact .kept (.origin h)
    | resource h => exact .kept (.resource (hget h))
  · exact .inr (.inr ⟨n, hget hk⟩)

lemma effect_setContent (space : Workspace) (given : Given Node) :
    Effect (.setContent given) space (space.setContent given) := by
  have hsheet := (grows_accept space given).sheet
  change Effect _ space ((space.accept given).2.putSheet
    { (space.accept given).2.sheet with content := (space.accept given).1 })
  rw [hsheet]
  refine effect_accept space.ids rfl (List.Subset.refl _) (fun n hn => ?_)
    fun id n hid => .inr (.inr ⟨n, hid⟩)
  cases hn with
  | content => exact .inr rfl
  | metadata => exact .inl .metadata
  | origin h => exact .inl (.origin h)
  | resource h => exact .inl (.resource h)

lemma effect_setMetadata (space : Workspace) (given : Given Bag) :
    Effect (.setMetadata given) space (space.setMetadata given) := by
  have hsheet := (grows_accept space given).sheet
  change Effect _ space ((space.accept given).2.putSheet
    { (space.accept given).2.sheet with metadata := (space.accept given).1 })
  rw [hsheet]
  refine effect_accept space.ids rfl (List.Subset.refl _) (fun n hn => ?_)
    fun id n hid => .inr (.inr ⟨n, hid⟩)
  cases hn with
  | content => exact .inl .content
  | metadata => exact .inr rfl
  | origin h => exact .inl (.origin h)
  | resource h => exact .inl (.resource h)

lemma effect_setSource (space : Workspace) (format : String) (given : Given Bag) :
    Effect (.setSource format given) space (space.setSource format given) := by
  have hsheet := (grows_accept space given).sheet
  change Effect _ space ((space.accept given).2.putSheet
    { (space.accept given).2.sheet with origin := some ⟨format, (space.accept given).1⟩ })
  rw [hsheet]
  refine effect_accept space.ids rfl (List.Subset.refl _) (fun n hn => ?_)
    fun id n hid => .inr (.inr ⟨n, hid⟩)
  cases hn with
  | content => exact .inl .content
  | metadata => exact .inl .metadata
  | origin h =>
    obtain rfl := Option.some.inj h
    exact .inr rfl
  | resource h => exact .inl (.resource h)

lemma effect_editContent {path : List ℕ} {name : String} {value : Json}
    (h : space.editContent path name value = .ok next) :
    Effect (.editContent path name value) space next := by
  unfold editContent at h
  dsimp only at h
  split at h
  · cases h
  · cases h
  · cases h
    exact effect_edit rfl .content _

lemma effect_editResource {id : ResourceId} {name : String} {value : Json}
    (h : space.editResource id name value = .ok next) :
    Effect (.editResource id name value) space next := by
  unfold editResource at h
  split at h
  · cases h
  · next n hn =>
    obtain ⟨metadata, -, h⟩ := Except.bind_eq_ok_iff.1 h
    cases h
    exact effect_edit rfl (.resource hn) _

lemma effect_editSource {name : String} {value : Json}
    (h : space.editSource name value = .ok next) :
    Effect (.editSource name value) space next := by
  unfold editSource at h
  split at h
  · cases h
  · next origin horigin => exact effect_editBag rfl (.origin horigin) h

lemma effect_rename {id : ResourceId} {name : String} (h : space.rename id name = .ok next) :
    Effect (.rename id name) space next := by
  unfold rename at h
  split at h
  · next resource hresource =>
    cases h
    rw [Document.resource?, currentDocument, document, OrderedMap.get?_mapValues,
      Option.map_eq_some_iff] at hresource
    obtain ⟨m, hm, -⟩ := hresource
    exact effect_insert rfl (List.nil_subset _) (.inr ⟨m, hm⟩)
  · cases h

lemma effect_copy (space : Workspace) (name : String) :
    Effect (.copy name) space (space.copy name) := by
  have hrenders := renders_addDocument space space.currentDocument
  rw [copy]
  generalize space.addDocument space.currentDocument = added at hrenders ⊢
  obtain ⟨sheet, next⟩ := added
  obtain ⟨hgrows, hfresh, hdocument⟩ := hrenders
  have hsheets : space.sheets.insert name sheet = next.sheets.insert name sheet := by
    rw [hgrows.sheets]
  refine .put hgrows.ids hgrows.current ⟨hgrows.size, hgrows.cells⟩ (.inr List.mem_cons_self)
    hsheets.symm (fun n hn => ?_) fun id n hid => ?_
  · obtain ⟨hle, hlt⟩ := hfresh n hn
    exact .new hle hlt
  · -- A copied resource has the identifier of a resource of the current document.
    rw [document, currentDocument, document] at hdocument
    have htable := congrArg (OrderedMap.get? · id) (Document.mk.inj hdocument).2.2.2
    dsimp only at htable
    rw [OrderedMap.get?_mapValues, OrderedMap.get?_mapValues, hid, Option.map_some] at htable
    obtain ⟨m, hm, -⟩ := Option.map_eq_some_iff.1 htable.symm
    exact .inr (.inr ⟨m, hm⟩)

lemma effect_transform {name : String} {change : Transform} {room : ℕ}
    (h : space.transform name change room = .ok next) :
    Effect (.transform name change room) space next := by
  unfold transform at h
  dsimp only at h
  split at h
  · cases h
  · next doc hdoc =>
    cases h
    let first := (space.add doc.content).2
    have hgrows : Grows space (first.add doc.metadata).2 :=
      (grows_add space doc.content).trans (grows_add first doc.metadata)
    have hfirst : first.cells.size = space.cells.size + 1 := size_add space doc.content
    have hsecond : (first.add doc.metadata).2.cells.size = first.cells.size + 1 :=
      size_add first doc.metadata
    refine .put hgrows.ids hgrows.current ⟨hgrows.size, hgrows.cells⟩ (.inr List.mem_cons_self)
      rfl (fun n hn => ?_) fun id n hid => .inr (.inr ⟨n, hid⟩)
    cases hn with
    | content => exact .new le_rfl (show space.cells.size < (first.add doc.metadata).2.cells.size by omega)
    | metadata =>
      exact .new (show space.cells.size ≤ first.cells.size by omega)
        (show first.cells.size < (first.add doc.metadata).2.cells.size by omega)
    | @origin origin h =>
      refine .kept (.origin ?_)
      split at h
      · exact h
      · cases h
    | resource h => exact .kept (.resource h)

/-- One case for each operation. -/
theorem effect_of_apply {step : Step} (h : step.apply space = .ok next) :
    Effect step space next := by
  cases step with
  | insert id given =>
    cases h
    exact effect_insert rfl (List.Subset.refl _) (.inl List.mem_cons_self)
  | embed given =>
    cases h
    exact effect_embed space given
  | nextId =>
    cases h
    exact .count rfl
  | remove id =>
    cases h
    exact effect_remove space id
  | rename id name => exact effect_rename h
  | editResource id name value => exact effect_editResource h
  | setContent given =>
    cases h
    exact effect_setContent space given
  | editContent path name value => exact effect_editContent h
  | setMetadata given =>
    cases h
    exact effect_setMetadata space given
  | editMetadata name value => exact effect_editBag rfl .metadata h
  | setSource format given =>
    cases h
    exact effect_setSource space format given
  | editSource name value => exact effect_editSource h
  | copy name =>
    cases h
    exact effect_copy space name
  | transform name change room => exact effect_transform h
  | switchTo name =>
    simp only [Step.apply, switchTo] at h
    split at h
    · next hthere =>
      cases h
      exact .turn rfl List.mem_cons_self hthere
    · cases h

/-- Only embedding and taking an identifier move the source. -/
lemma Effect.ids_eq {step : Step} (h : Effect step space next) : next.ids =
    if step.mints then { space.ids with next := space.ids.next + 1 } else space.ids := by
  cases h with
  | count hmints => rw [if_pos hmints]
  | turn hmints => rw [hmints]; rfl
  | edit hmints => rw [hmints]; rfl
  | put hids => exact hids

/-- The current document is there, and every object that a sheet refers to. -/
structure Grounded (space : Workspace) : Prop where
  opened : space.sheets.get? space.current = some space.sheet
  has : ∀ name sheet, space.sheets.get? name = some sheet → ∀ n, sheet.Holds n → n < space.cells.size

lemma Grounded.lt_size (h : space.Grounded) (hholds : space.sheet.Holds n) : n < space.cells.size :=
  h.has _ _ h.opened n hholds

/-- A sheet that is there is found under its name. -/
lemma get?_eq_sheet (h : space.sheets.contains space.current = true) :
    space.sheets.get? space.current = some space.sheet := by
  obtain ⟨sheet, hsheet⟩ := Option.isSome_iff_exists.1 h
  rw [Workspace.sheet, hsheet, Option.getD_some]

lemma Effect.grounded {step : Step} (h : Effect step space next) (hgrounded : space.Grounded) :
    next.Grounded := by
  cases h with
  | count => exact ⟨hgrounded.opened, hgrounded.has⟩
  | turn _ _ hthere => exact ⟨get?_eq_sheet hthere, hgrounded.has⟩
  | edit _ _ hsize =>
    refine ⟨hgrounded.opened, fun name sheet hsheet n hn => ?_⟩
    exact (hgrounded.has name sheet hsheet n hn).trans_eq hsize.symm
  | @put _ name sheet _ hcurrent hkeeps _ hsheets hcomes =>
    constructor
    · apply get?_eq_sheet
      rw [OrderedMap.contains, hsheets, hcurrent, OrderedMap.get?_insert]
      split
      · rfl
      · rw [hgrounded.opened]
        rfl
    · intro name' sheet' hsheet' n hn
      rw [hsheets, OrderedMap.get?_insert] at hsheet'
      split at hsheet'
      · obtain rfl := Option.some.inj hsheet'
        cases hcomes n hn with
        | kept h => exact (hgrounded.lt_size h).trans_le hkeeps.size
        | brought _ there => exact there.trans_le hkeeps.size
        | new _ there => exact there
      · exact (hgrounded.has name' sheet' hsheet' n hn).trans_le hkeeps.size

lemma grounded_start (ids : IdSource) : (start ids).Grounded := by
  obtain ⟨hgrows, hfresh, -⟩ := renders_addDocument ⟨ids, #[], .empty, firstName⟩ .empty
  constructor
  · exact get?_eq_sheet rfl
  · intro name sheet hsheet n hn
    have hfirst : (OrderedMap.empty.insert firstName
        (addDocument ⟨ids, #[], .empty, firstName⟩ .empty).1).get? name = some sheet := hsheet
    rw [OrderedMap.get?_insert] at hfirst
    split at hfirst
    · obtain rfl := Option.some.inj hfirst
      exact (hfresh n hn).2
    · cases hfirst

/-- Whatever is done in a workspace, it stays grounded. -/
theorem grounded_run (hgrounded : space.Grounded) (steps : List Step) :
    (space.run steps).Grounded := by
  induction steps generalizing space with
  | nil => exact hgrounded
  | cons step steps ih =>
    rw [run, List.foldl_cons, Step.advance]
    cases happly : step.apply space with
    | error fault => exact ih hgrounded
    | ok next => exact ih ((effect_of_apply happly).grounded hgrounded)

end Workspace

end Interchange
