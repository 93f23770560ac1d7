import Interchange.Native.Text
import Interchange.Proofs.Json.Halves
import Interchange.Proofs.Native.Texts
import Interchange.Proofs.Text.Encoding

/-!
# Reading what was written in the native format

Without floating point numbers a document of characters is read from its text as it was written,
whatever the indentation and the escapes, and neither step gives a warning. Halves of pairs that
stand alone, as the reader accepts them, are kept only where every character outside ASCII is
escaped; elsewhere there are no bytes to write.
-/
namespace Interchange

variable {τ : Type}

namespace Value

mutual

/-- A value and all values in it, at any depth. -/
def parts : Value τ → List (Value τ)
  | .list items => .list items :: partsOfItems items
  | .map fields => .map fields :: partsOfFields fields
  | v => [v]

def partsOfItems : List (Value τ) → List (Value τ)
  | [] => []
  | v :: vs => parts v ++ partsOfItems vs

def partsOfFields : List (τ × Value τ) → List (Value τ)
  | [] => []
  | (_, v) :: fields => parts v ++ partsOfFields fields

end

/-- No floating point number and, if it is a map, one with each name once. -/
def IsExact : Value τ → Prop
  | .float _ => False
  | .map fields => (fields.map Prod.fst).Nodup
  | _ => True

lemma fst_toJsonFields (fields : List (τ × Value τ)) :
    (toJsonFields fields).map Prod.fst = fields.map Prod.fst := by
  rw [toJsonFields_eq_map, List.map_map]
  rfl

mutual

theorem isExact_toJson : ∀ v : Value τ, (∀ part ∈ parts v, part.IsExact) → v.toJson.IsExact
  | .text _, _ => trivial
  | .int n, _ => Number.length_digits_int64 n
  | .float _, h => h _ List.mem_cons_self
  | .bool _, _ => trivial
  | .list items, h => areExact_toJsonItems items (List.forall_mem_cons.1 h).2
  | .map fields, h => by
    obtain ⟨hnames, hparts⟩ := List.forall_mem_cons.1 h
    rw [toJson, Json.IsExact, fst_toJsonFields]
    exact ⟨hnames, areExactMembers_toJsonFields fields hparts⟩

theorem areExact_toJsonItems : ∀ vs : List (Value τ), (∀ part ∈ partsOfItems vs, part.IsExact) →
    Json.AreExact (toJsonItems vs)
  | [], _ => trivial
  | v :: vs, h => by
    obtain ⟨hfirst, hothers⟩ := List.forall_mem_append.1 h
    exact ⟨isExact_toJson v hfirst, areExact_toJsonItems vs hothers⟩

theorem areExactMembers_toJsonFields : ∀ fields : List (τ × Value τ),
    (∀ part ∈ partsOfFields fields, part.IsExact) → Json.AreExactMembers (toJsonFields fields)
  | [], _ => trivial
  | (_, v) :: fields, h => by
    obtain ⟨hfirst, hothers⟩ := List.forall_mem_append.1 h
    exact ⟨isExact_toJson v hfirst, areExactMembers_toJsonFields fields hothers⟩

end

end Value

/-- The end has no more digits than are read, and so neither has the start. -/
def Span.IsShort (span : Span) : Prop := (Number.digits span.stop).length ≤ Number.digitLimit

namespace Bag

/-- The values in a bag, at any depth. -/
def parts (bag : Bag τ) : List (Value τ) := Value.partsOfFields bag.entries

/-- All values in a bag are exact. -/
def IsExact (bag : Bag τ) : Prop := ∀ part ∈ parts bag, part.IsExact

lemma isExact_toJson {bag : Bag τ} (h : bag.IsExact) : (toJson bag).IsExact := by
  rw [toJson, Json.IsExact, Value.fst_toJsonFields]
  exact ⟨bag.nodup, Value.areExactMembers_toJsonFields bag.entries h⟩

end Bag

namespace Document

variable [Textual τ]

/-- The values of all properties, with all values in them. -/
def values (doc : Document τ) : List (Value τ) := doc.bags.flatMap Bag.parts

def spans (doc : Document τ) : List Span := doc.content.walk.filterMap Node.span

/-- What text in the native format can carry as it is: no floating point number among the values, no
offset with more digits than are read, and maps that are maps, with each name once. -/
structure IsExact (doc : Document τ) : Prop where
  floats : ∀ x, Value.float x ∉ doc.values
  names : ∀ fields, Value.map fields ∈ doc.values → (fields.map Prod.fst).Nodup
  offsets : ∀ span ∈ doc.spans, span.IsShort

lemma IsExact.isExact_value {doc : Document τ} (h : doc.IsExact) {v : Value τ}
    (hv : v ∈ doc.values) : v.IsExact := by
  cases v with
  | float x => exact h.floats x hv
  | map fields => exact h.names fields hv
  | _ => trivial

end Document

namespace Native

open Json (IsExact AreExact AreExactMembers)

lemma nodup_names {names : List String} (h : names.Nodup) : (names.map Wide.ofString).Nodup :=
  h.map fun _ _ => Wide.ofString_inj.1

lemma isExact_encodeSpan {span : Option Span} (h : ∀ found ∈ span, found.IsShort) :
    (encodeSpan span).IsExact := by
  cases span with
  | none => trivial
  | some found =>
    have hstop := h found rfl
    have hstart := (Number.length_digits_mono found.ordered).trans hstop
    exact ⟨hstart, hstop, trivial⟩

/-- What a node itself has, its children aside, can be carried. -/
def HasExactParts (node : Node Wide) : Prop :=
  Bag.IsExact node.props ∧ ∀ span ∈ node.span, span.IsShort

mutual

theorem isExact_encodeNode : ∀ node : Node Wide, (∀ part ∈ node.walk, HasExactParts part) →
    (encodeNode node).IsExact
  | ⟨kind, props, children, span⟩, h => by
    rw [Node.walk_eq, List.forall_mem_cons] at h
    have hchildren := areExact_encodeNodes children h.2
    have hnames : ["kind", "props", "children", "span"].Nodup := by decide
    exact ⟨nodup_names hnames, trivial, Bag.isExact_toJson h.1.1, hchildren,
      isExact_encodeSpan h.1.2, trivial⟩

theorem areExact_encodeNodes : ∀ nodes : List (Node Wide),
    (∀ part ∈ Node.walkAll nodes, HasExactParts part) → AreExact (encodeNodes nodes)
  | [], _ => trivial
  | node :: nodes, h => by
    rw [Node.walkAll, List.forall_mem_append] at h
    exact ⟨isExact_encodeNode node h.1, areExact_encodeNodes nodes h.2⟩

end

lemma isExact_encodeResource {resource : Resource Wide} (h : Bag.IsExact resource.metadata) :
    (encodeResource resource).IsExact := by
  have hnames : ["name", "mime_type", "data", "metadata"].Nodup := by decide
  refine ⟨nodup_names hnames, ?_, trivial, trivial, Bag.isExact_toJson h, trivial⟩
  cases resource.name <;> trivial

lemma isExact_encodeSource {source : Option (SourceInfo Wide)}
    (h : ∀ info ∈ source, Bag.IsExact info.metadata) : (encodeSource source).IsExact := by
  cases source with
  | none => trivial
  | some info =>
    have hnames : ["format", "metadata"].Nodup := by decide
    exact ⟨nodup_names hnames, trivial, Bag.isExact_toJson (h info rfl), trivial⟩

/-- Different identifiers have different texts, so no name stands twice in the table. -/
lemma isExact_encodeResources {table : ResourceTable Wide}
    (h : ∀ resource ∈ table.values, Bag.IsExact resource.metadata) :
    (Json.object (table.entries.map fun e => (e.1.text, encodeResource e.2))).IsExact := by
  have hkeys : ((table.entries.map fun e => (e.1.text, encodeResource e.2)).map Prod.fst).Nodup := by
    have hinjective : Function.Injective (ResourceId.text : ResourceId Wide → Wide) := by
      rintro ⟨_⟩ ⟨_⟩ rfl
      rfl
    have htexts := table.nodup.map hinjective
    rwa [List.map_map] at htexts ⊢
  refine ⟨hkeys, Json.areExactMembers_iff.2 fun m hm => ?_⟩
  obtain ⟨e, he, rfl⟩ := List.mem_map.1 hm
  exact isExact_encodeResource (h e.2 (List.mem_map_of_mem he))

theorem isExact_encode {doc : Document Wide} (h : doc.IsExact) : (encode doc).IsExact := by
  have hbags : ∀ bag ∈ doc.bags, Bag.IsExact bag := fun bag hbag part hpart =>
    h.isExact_value (List.mem_flatMap.2 ⟨bag, hbag, hpart⟩)
  unfold Document.bags at hbags
  simp only [List.forall_mem_append, List.forall_mem_cons, List.forall_mem_map,
    Option.mem_toList] at hbags
  obtain ⟨hnodes, hmetadata, hsource, hresources⟩ := hbags
  have hcontent : ∀ part ∈ doc.content.walk, HasExactParts part := fun part hpart =>
    ⟨hnodes part hpart, fun span hspan => h.offsets span (List.mem_filterMap.2 ⟨part, hpart, hspan⟩)⟩
  have hnames : [markerName, "content", "metadata", "source", "resources"].Nodup := by decide
  have hversion : (Json.int version : Json Wide).IsExact := by
    change (Number.digits 1).length ≤ Number.digitLimit
    rw [Number.digits, if_pos (by decide)]
    decide
  exact ⟨nodup_names hnames, hversion, isExact_encodeNode doc.content hcontent,
    Bag.isExact_toJson hmetadata, isExact_encodeSource hsource, isExact_encodeResources hresources, trivial⟩

/-- The form of a document is read if its tree stays within the limit of depth and its root is what
a root has to be. -/
theorem readDocument_encode {doc : Document Wide} (hroot : doc.content.kind = Kind.document.widen)
    (hdepth : doc.content.depth ≤ depthLimit) : readDocument (encode doc) = .ok doc := by
  have hcontent : decodeNode (encodeNode doc.content) = .ok doc.content := by
    rw [decodeNode, decodeLevels_encodeNode, if_pos (Nat.lt_succ_of_le hdepth)]
  have hdecoded : decode (encode doc) = .ok doc := by
    simp only [encode, decode, markerName, Json.member_cons, Wide.ofString_inj, String.reduceEq,
      if_true, if_false, hcontent, Except.bind_ok, decodeBag_toJson, decodeSource_encodeSource, decodeTable,
      decodeResources_encode]
  rw [encode] at hdecoded ⊢
  rw [readDocument, readVersion, Json.member?_cons, if_pos rfl]
  simp only [if_true, Except.bind_ok, hdecoded, hroot]

end Native

namespace Settings

/-- The induction is on the settings that are still to be laid over the others. -/
lemma get?_foldl_insert {entries : List (String × Json)} (h : (entries.map Prod.fst).Nodup)
    (settings : Settings) (name : String) :
    (entries.foldl (fun settings e => OrderedMap.insert settings e.1 e.2) settings).get? name =
      (OrderedMap.lookup name entries).or (settings.get? name) := by
  induction entries generalizing settings with
  | nil => rfl
  | cons e entries ih =>
    obtain ⟨key, value⟩ := e
    rw [List.map_cons, List.nodup_cons] at h
    rw [List.foldl_cons, ih h.2, OrderedMap.get?_insert, OrderedMap.lookup]
    by_cases hkey : key = name
    · rw [if_pos hkey, if_pos hkey, OrderedMap.lookup_eq_none_iff.2 (hkey ▸ h.1)]
      rfl
    · rw [if_neg hkey, if_neg hkey]

/-- What is given goes before the default. -/
theorem get?_merge (defaults given : Settings) (name : String) :
    (merge defaults given).get? name = (given.get? name).or (defaults.get? name) :=
  get?_foldl_insert given.nodup defaults name

end Settings

namespace Native

open Json (Style)

variable {options : WriteOptions}

/-- The indentation, if one is set, is a number of spaces. -/
def HasIntIndent (options : WriteOptions) : Prop :=
  ∀ value ∈ options.extra.get? indentName, ∃ n, value = .int n

lemma HasIntIndent.exists_eq (h : HasIntIndent options) :
    ∃ n, (settings options).getOr indentName (.int 2) = .int n := by
  rw [Settings.getOr, settings, Settings.get?_merge]
  cases hfound : options.extra.get? indentName with
  | none => exact ⟨2, rfl⟩
  | some value => exact h value hfound

lemma isBlank_replicate (n : ℕ) (asciiOnly : Bool) :
    Style.IsBlank ⟨some (List.replicate n ' '), asciiOnly⟩ := by
  rintro _ ⟨⟩ c hc
  rw [List.eq_of_mem_replicate hc]
  rfl

/-- Whatever else is set, the text is laid out by blanks alone. -/
theorem exists_style (h : HasIntIndent options) :
    ∃ found, style options = .ok found ∧ found.IsBlank ∧ found.asciiOnly = escapesAll options := by
  obtain ⟨n, hindent⟩ := h.exists_eq
  by_cases hpretty : options.isPretty = true
  · simp only [style, hpretty, if_true, hindent, indentation, Except.bind_ok]
    exact ⟨_, rfl, isBlank_replicate _ _, rfl⟩
  · simp only [style, hpretty, Bool.false_eq_true, if_false]
    exact ⟨_, rfl, nofun, rfl⟩

variable {doc : Document Wide} {found : Style}

/-- Text in the native format begins with a brace. -/
lemma head?_spelledValue_encode :
    (Json.spelledValue found 0 (encode doc)).head? = some '\x7b' := by
  have hmembers : Json.spelledMembers found 1 [(↑markerName, .int version),
      ("content", encodeNode doc.content), ("metadata", Bag.toJson doc.metadata),
      ("source", encodeSource doc.source), ("resources", .object (doc.resources.entries.map fun e =>
        (e.1.text, encodeResource e.2)))] ≠ [] := by simp [Json.spelledMembers_cons]
  rw [encode, Json.spelledValue_object, Style.enclose_of_ne_nil _ _ _ _ hmembers]
  rfl

/-- No name of the form itself has a half of a pair. -/
lemma isWhole_print_encode_iff : Json.IsWhole (Json.print found (encode doc)) ↔
    ∀ text ∈ doc.texts, found.asciiOnly = true ∨ Json.IsWhole text.points := by
  rw [Json.print, Json.isWhole_printValue]
  exact forall_mem_texts_encode (fun name => .inr (Json.isWhole_map_char name.toList)) doc

/-- What is written is the text of the form, if bytes can be made of it. -/
theorem write_eq_ok_iff (hstyle : style options = .ok found) {text : String} :
    write doc options = .ok (.ok text) ↔
      (∀ text ∈ doc.texts, found.asciiOnly = true ∨ Json.IsWhole text.points) ∧
        text = String.ofList (Json.spelledValue found 0 (encode doc)) := by
  rw [← isWhole_print_encode_iff]
  refine Iff.trans ?_ Text.encodable_eq_ok_iff
  rw [write, hstyle]
  dsimp only
  cases Text.encodable (Json.print found (encode doc)) with
  | ok written => simp [Outcome.ok]
  | error fault => simp

/-- A document that is read has no pair of halves, so escaping keeps its texts. -/
theorem hasKeptTexts_of_read {data : ByteArray} {readOptions : ReadOptions}
    {outcome : Outcome (Document Wide)} (h : read data readOptions = .ok outcome) :
    Json.HasKeptTexts true outcome.value.texts := by
  unfold read at h
  dsimp only at h
  split at h
  · cases h
  · next value hvalue =>
    obtain ⟨found, hfound, rfl⟩ := Except.map_eq_ok_iff.1 h
    exact forall_mem_texts_of_readDocument (Json.isUnpaired_of_parse hvalue) hfound

/-- The text of the form is read as the document, if its texts are kept. -/
theorem read_spelledValue_encode (hroot : doc.content.kind = Kind.document.widen)
    (hdepth : doc.content.depth ≤ 256) (hexact : doc.IsExact) (hblank : found.IsBlank)
    (hkept : Json.HasKeptTexts found.asciiOnly doc.texts) (readOptions : ReadOptions) :
    read (String.ofList (Json.spelledValue found 0 (encode doc))).toUTF8 readOptions =
      .ok (.ok doc) := by
  have hmark : (String.ofList (Json.spelledValue found 0 (encode doc))).toList.head? ≠
      some Text.markChar := by
    rw [String.toList_ofList, head?_spelledValue_encode]
    decide
  have hplain (name : String) : Json.IsKept found.asciiOnly (Wide.ofString name).points :=
    (Json.isWhole_map_char name.toList).isKept _
  have hparsed := Json.parse_spelledValue hblank (isExact_encode hexact)
    ((forall_mem_texts_encode hplain doc).2 hkept)
  unfold read
  rw [Reading.decodeText_toUTF8_of_head?_ne hmark]
  simp only [Outcome.ok, hparsed, readDocument_encode hroot hdepth]
  rfl

/-- What is kept is written without a warning in every style, and read as it was. -/
theorem exists_read_write (hroot : doc.content.kind = Kind.document.widen)
    (hdepth : doc.content.depth ≤ 256) (hexact : doc.IsExact) (hindent : HasIntIndent options)
    (hkept : Json.HasKeptTexts (escapesAll options) doc.texts) (readOptions : ReadOptions) :
    ∃ text, write doc options = .ok (.ok text) ∧
      read text.toUTF8 readOptions = .ok (.ok doc) := by
  obtain ⟨found, hstyle, hblank, hascii⟩ := exists_style hindent
  rw [← hascii] at hkept
  have hread := read_spelledValue_encode hroot hdepth hexact hblank hkept readOptions
  refine ⟨_, (write_eq_ok_iff hstyle).2 ⟨fun text htext => ?_, rfl⟩, hread⟩
  have htext := hkept text htext
  cases hstyled : found.asciiOnly with
  | true => exact .inl rfl
  | false =>
    rw [hstyled] at htext
    exact .inr htext

theorem isWhole_texts_widen (doc : Document) :
    ∀ text ∈ doc.widen.texts, Json.IsWhole text.points :=
  Respelling.forall_mem_texts_document (fun text => Json.isWhole_map_char text.toList) doc

/-- A document of characters is read as it was in every style. -/
theorem exists_read_write_widen {doc : Document} (hroot : doc.content.kind = .document)
    (hdepth : doc.widen.content.depth ≤ 256) (hexact : doc.widen.IsExact)
    (hindent : HasIntIndent options) (readOptions : ReadOptions) :
    ∃ text, write doc.widen options = .ok (.ok text) ∧
      read text.toUTF8 readOptions = .ok (.ok doc.widen) := by
  have hkind : doc.widen.content.kind = Kind.document.widen := by
    obtain ⟨⟨kind, props, children, span⟩, metadata, source, resources⟩ := doc
    exact congrArg Kind.widen hroot
  have hkept : Json.HasKeptTexts (escapesAll options) doc.widen.texts := fun text htext =>
    (isWhole_texts_widen doc text htext).isKept _
  exact exists_read_write hkind hdepth hexact hindent hkept readOptions

/-- In every style a document is written without a warning and read without one, as it was, just if
no text of it is lost: where every character outside ASCII is escaped a first half of a pair and a
second one in a row are read as one character, and elsewhere no half has bytes. -/
theorem read_write_iff (hroot : doc.content.kind = Kind.document.widen)
    (hdepth : doc.content.depth ≤ 256) (hexact : doc.IsExact) (hindent : HasIntIndent options)
    (readOptions : ReadOptions) :
    (∃ text, write doc options = .ok (.ok text) ∧
      read text.toUTF8 readOptions = .ok (.ok doc)) ↔
        Json.HasKeptTexts (escapesAll options) doc.texts := by
  refine ⟨?_, fun hkept => exists_read_write hroot hdepth hexact hindent hkept readOptions⟩
  rintro ⟨text, hwrite, hread⟩
  obtain ⟨found, hstyle, -, hascii⟩ := exists_style hindent
  obtain ⟨hwhole, -⟩ := (write_eq_ok_iff hstyle).1 hwrite
  rw [← hascii]
  cases hstyled : found.asciiOnly with
  | true => exact hasKeptTexts_of_read hread
  | false => exact fun text htext => (hwhole text htext).resolve_left (by simp [hstyled])

/-- Quotes, controls, characters of every plane and a half of a pair in names and values, and
offsets of many digits. -/
def inscribed : Document Wide where
  content := ⟨Kind.document.widen, .ofList [("a \"b\"\\", .list [.int (-7), .bool true,
      .map [("\t\x00", .text "é\ufeff😀"), ("", .list [])]])],
    [⟨Kind.text.widen, .ofList [(Key.content, .text "\x08\x0c\r\n\x7f/")], [],
        some ⟨3, 10 ^ 20, by decide⟩⟩,
      ⟨Kind.lineBreak.widen, .empty, [], none⟩], none⟩
  metadata := .ofList [("title", .text ⟨[.char 'a', .ofCode 0xdbff, .char 'b', .ofCode 0xdfff]⟩)]
  source := some ⟨"docx", .ofList [("ü", .map [])]⟩
  resources := .ofList [(⟨"res_0"⟩, ⟨"image/png", ⟨#[0, 255]⟩, some "x.png", .empty⟩)]

/-- Lines without indentation, and every character outside ASCII escaped. -/
def escaping : WriteOptions :=
  ⟨.bool true, .bool false, .ofList [(indentName, .int (-1)), (asciiName, .int 1)]⟩

theorem read_write_inscribed :
    (inscribed.content.kind = Kind.document.widen ∧ inscribed.content.depth ≤ 256 ∧
      inscribed.IsExact ∧ HasIntIndent escaping) ∧
    ∃ text, write inscribed escaping = .ok (.ok text) ∧
      read text.toUTF8 .standard = .ok (.ok inscribed) := by
  have hvalues : inscribed.values = [
      .list [.int (-7), .bool true, .map [("\t\x00", .text "é\ufeff😀"), ("", .list [])]],
      .int (-7), .bool true, .map [("\t\x00", .text "é\ufeff😀"), ("", .list [])],
      .text "é\ufeff😀", .list [], .text "\x08\x0c\r\n\x7f/",
      .text ⟨[.char 'a', .ofCode 0xdbff, .char 'b', .ofCode 0xdfff]⟩, .map []] := rfl
  have hspans : inscribed.spans = [⟨3, 10 ^ 20, by decide⟩] := rfl
  have hexact : inscribed.IsExact := by
    refine ⟨?_, ?_, ?_⟩
    · simp [hvalues]
    · simp [hvalues]
    · rw [hspans, List.forall_mem_singleton, Span.IsShort, Number.length_digits_le_iff (by decide)]
      exact Nat.pow_lt_pow_right (by decide) (by decide)
  have hindent : HasIntIndent escaping := by
    rintro _ ⟨⟩
    exact ⟨-1, rfl⟩
  have hkept : Json.HasKeptTexts (escapesAll escaping) inscribed.texts := by
    change ∀ text ∈ inscribed.texts, Json.IsUnpaired text.points
    unfold Json.IsUnpaired
    decide
  exact ⟨⟨rfl, by decide, hexact, hindent⟩,
    (read_write_iff rfl (by decide) hexact hindent .standard).2 hkept⟩

/-- A text that is the first half of a pair. -/
def halved : Document Wide where
  content := ⟨Kind.document.widen, .empty,
    [⟨Kind.text.widen, .ofList [(Key.content, .text ⟨[.ofCode 0xd800]⟩)], [], none⟩], none⟩
  metadata := .empty
  source := none
  resources := .empty

/-- The reader gives this document, and written as it is by default it has no bytes. -/
theorem not_read_write_halved :
    (∃ data, read data .standard = .ok (.ok halved)) ∧
      write halved .standard = .error (.encoding ⟨113, 0, 0⟩) := by
  have hexact : halved.IsExact := by
    have hvalues : halved.values = [.text ⟨[.ofCode 0xd800]⟩] := rfl
    have hspans : halved.spans = [] := rfl
    refine ⟨?_, ?_, ?_⟩ <;> simp [hvalues, hspans]
  have hblank : Style.IsBlank ⟨none, true⟩ := nofun
  have hkept : Json.HasKeptTexts true halved.texts := by
    change ∀ text ∈ halved.texts, Json.IsUnpaired text.points
    unfold Json.IsUnpaired
    decide
  have hfault : Text.encodable (Json.print ⟨none, false⟩ (encode halved)) =
      .error ⟨113, 0, 0⟩ := by decide +kernel
  refine ⟨⟨_, read_spelledValue_encode rfl (by decide) hexact hblank hkept .standard⟩, ?_⟩
  have hstyle : style .standard = .ok ⟨none, false⟩ := rfl
  rw [write, hstyle]
  dsimp only
  rw [hfault]

end Native

end Interchange
