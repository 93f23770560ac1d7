import Interchange.Conversion
import Interchange.Proofs.Failure
import Mathlib.Tactic

/-!
# How a format is found

A file is read in the format that its extension has in the catalog, although the readers are
searched in an order of their own: the first of the readers sorted by priority is the first of those
with the highest one. What is resolved, by a name or by a file, can be read or written under its
name.
-/
namespace Interchange

namespace Path

/-- A suffix begins with its dot. -/
lemma exists_suffix {path : Path} (h : path.suffix ≠ "") :
    ∃ cs, path.suffix = String.ofList ('.' :: cs) := by
  unfold suffix suffixOf at h ⊢
  dsimp only at h ⊢
  split at h
  · contradiction
  · next hshape => exact ⟨_, if_neg hshape⟩

end Path

namespace Format

/-- A name in lower case leads back to its format. -/
lemma name_eq_lower_iff {format other : Format} : other.name = lower format.name ↔ other = format := by
  cases format <;> cases other <;> decide +kernel

lemma withName?_of_mem {formats : List Format} {format : Format} (h : format ∈ formats) :
    withName? formats format.name = some format := by
  rw [withName?]
  have hsome : (formats.find? (·.name = lower format.name)).isSome :=
    List.find?_isSome.2 ⟨format, h, decide_eq_true (name_eq_lower_iff.2 rfl)⟩
  obtain ⟨found, hfound⟩ := Option.isSome_iff_exists.1 hsome
  have hname : found.name = lower format.name := by simpa using List.find?_some hfound
  rw [hfound, name_eq_lower_iff.1 hname]

lemma mem_all (format : Format) : format ∈ all := by
  cases format <;> decide

lemma ofName?_name (format : Format) : ofName? format.name = some format :=
  withName?_of_mem (mem_all format)

lemma claims_empty (format : Format) : claims "" format = false := by
  cases format <;> decide +kernel

lemma dotted_suffix {path : Path} (h : path.suffix ≠ "") : dotted path.suffix = path.suffix := by
  obtain ⟨cs, hsuffix⟩ := Path.exists_suffix h
  rw [dotted, hsuffix, if_pos]
  simp [String.startsWith_string_iff]

/-- Sorting keeps equals in order, so the first of the sorted formats is the first of the best. -/
theorem head?_mergeSort (formats : List Format) :
    (formats.mergeSort fun format other => other.priority ≤ format.priority).head? =
      formats.maxOn? priority := by
  have htrans (a b c : Format) (hab : decide (b.priority ≤ a.priority) = true)
      (hbc : decide (c.priority ≤ b.priority) = true) : decide (c.priority ≤ a.priority) = true := by
    simp only [decide_eq_true_eq] at *
    omega
  have htotal (a b : Format) :
      (decide (b.priority ≤ a.priority) || decide (a.priority ≤ b.priority)) = true := by
    simp only [Bool.or_eq_true, decide_eq_true_eq]
    omega
  induction formats with
  | nil => simp
  | cons format formats ih =>
    -- What stands before the first format once all are sorted has a higher priority.
    obtain ⟨before, after, hall, hrest, hbefore⟩ := List.mergeSort_cons htrans htotal format formats
    rw [hrest] at ih
    rw [hall, List.maxOn?_cons, ← ih]
    cases before with
    | nil =>
      have hsorted := List.pairwise_mergeSort htrans htotal (format :: formats)
      rw [hall] at hsorted
      cases after with
      | nil => rfl
      | cons other after =>
        have hle := (List.pairwise_cons.1 hsorted).1 other List.mem_cons_self
        exact congrArg some (maxOn_eq_left (of_decide_eq_true hle)).symm
    | cons other before =>
      have hlt := hbefore other List.mem_cons_self
      simp only [Bool.not_eq_true', decide_eq_false_iff_not] at hlt
      exact congrArg some (maxOn_eq_right hlt).symm

/-- Through the catalog a suffix leads to the format that is to read the file. -/
lemma ofExtension?_suffix {path : Path} (h : path.suffix ≠ "") :
    ofExtension? path.suffix = ofPath? path := by
  have hentry : (fun format : Format => ofName? format.name) = some := funext ofName?_name
  rw [ofExtension?, dotted_suffix h, readerOfExtension?, dotted_suffix h, ← head?_mergeSort, hentry,
    Option.bind_fun_some, ofPath?]

lemma ofPath?_of_bare {path : Path} (h : path.suffix = "") : ofPath? path = none := by
  have hnone : readers.filter (claims "") = [] :=
    List.filter_eq_nil_iff.2 fun format _ => by simp [claims_empty]
  rw [ofPath?, h, hnone]
  simp

lemma ofFile?_some (file : String) (direction : Direction) : ofFile? (some file) direction =
    if file = standardStream ∨ (Path.ofText file).suffix = "" then none
    else direction.ofExtension? (Path.ofText file).suffix := rfl

/-- The standard stream has no suffix, so no exception is needed for it. -/
theorem ofFile?_input (file : String) : ofFile? (some file) .input = ofPath? (.ofText file) := by
  have hstream : (Path.ofText standardStream).suffix = "" := by decide +kernel
  rw [ofFile?_some]
  split
  · next hbare =>
    refine (ofPath?_of_bare ?_).symm
    rcases hbare with rfl | hbare
    · exact hstream
    · exact hbare
  · next hsuffix => exact ofExtension?_suffix fun hbare => hsuffix (.inr hbare)

lemma resolve_file (file : String) : resolve none (some file) .input =
    (ofPath? (.ofText file)).elim (.error (.undetermined (some .input))) .ok := by
  rw [resolve, Option.filter_none, ← ofFile?_input]
  cases ofFile? (some file) .input <;> rfl

lemma resolve_named {name : String} {format : Format} {direction : Direction} (h : name ≠ "")
    (hname : ofName? name = some format) (hmem : format ∈ direction.formats) (path : Option String) :
    resolve (some name) path direction = .ok format := by
  have hgiven : (some name).filter (· ≠ "") = some name := by simp [h]
  rw [resolve, hgiven]
  simp [hname, hmem]

lemma mem_of_ofExtension? {direction : Direction} {extension : String} {format : Format}
    (h : direction.ofExtension? extension = some format) : format ∈ direction.formats := by
  cases direction with
  | input =>
    rw [Direction.ofExtension?, ofExtension?, Option.bind_eq_some_iff] at h
    obtain ⟨reader, hreader, hentry⟩ := h
    obtain rfl := Option.some.inj ((ofName?_name reader).symm.trans hentry)
    exact (List.mem_filter.1 (List.maxOn?_mem hreader)).1
  | output =>
    rw [Direction.ofExtension?, ofWrittenExtension?, Option.bind_eq_some_iff] at h
    obtain ⟨writer, hwriter, hentry⟩ := h
    obtain rfl := Option.some.inj ((ofName?_name writer).symm.trans hentry)
    exact List.mem_of_find?_eq_some hwriter

/-- A name is checked against the formats of its direction, and the extension of a file is looked for
among them. -/
theorem mem_of_resolve {explicit path : Option String} {direction : Direction} {format : Format}
    (h : resolve explicit path direction = .ok format) : format ∈ direction.formats := by
  unfold resolve at h
  split at h
  · split at h
    · cases h
    · split at h
      · next hmem => exact Except.ok.inj h ▸ hmem
      · cases h
  · split at h
    · next found hfound =>
      obtain rfl := Except.ok.inj h
      cases path with
      | none => cases hfound
      | some file =>
        rw [ofFile?_some] at hfound
        split at hfound
        · cases hfound
        · exact mem_of_ofExtension? hfound
    · cases h

end Format

namespace Filing

/-- No other step of reading a file fails for want of a reader. -/
lemma exists_noReader_iff {files : FileTree} {path : Path} {options : Json} :
    (∃ name, read files path none options = .error (.noReader name)) ↔
      Format.ofPath? path = none := by
  have hfile (error : FileError) (name : String) : Error.ofFile .unreadable error ≠ .noReader name := by
    rw [Error.ofFile]
    split <;> nofun
  constructor
  · rintro ⟨name, h⟩
    by_contra hsome
    obtain ⟨format, hformat⟩ := Option.ne_none_iff_exists'.1 hsome
    have hreader : readerFor path none = .ok format := by
      rw [readerFor, hformat]
    rw [read, hreader] at h
    change ((files.read path).mapError (Error.ofFile .unreadable) >>= fun payload =>
      format.read payload options) = _ at h
    cases hpayload : files.read path with
    | error error =>
      rw [hpayload] at h
      exact hfile error name (Except.error.inj h)
    | ok payload =>
      rw [hpayload] at h
      change format.read payload options = _ at h
      rw [Format.read] at h
      split at h
      · cases h
      · next settings _ =>
        cases hread : format.readWith payload settings <;> rw [hread] at h <;> cases h
  · intro hnone
    refine ⟨if path.suffix = "" then path.toText else path.suffix, ?_⟩
    rw [read, readerFor, hnone]
    rfl

end Filing

namespace Format

/-- Whatever file is given, resolving it for input gives the format of the reader that is picked for
the file, and fails exactly when reading the file fails for want of a reader. What is resolved by a
name or a file has a reader or a writer under its name. -/
theorem resolve_agrees :
    (∀ file : String,
      (∀ format, resolve none (some file) .input = .ok format ↔
        ofPath? (.ofText file) = some format) ∧
      ∀ (files : FileTree) (options : Json),
        (∃ fault, resolve none (some file) .input = .error fault) ↔
          ∃ name, Filing.read files (.ofText file) none options = .error (.noReader name)) ∧
    ∀ (explicit path : Option String) (direction : Direction) (format : Format),
      resolve explicit path direction = .ok format →
        (direction = .input → Conversion.reader format.name = .ok format) ∧
          (direction = .output → Conversion.writer format.name = .ok format) := by
  refine ⟨fun file => ⟨fun format => ?_, fun files options => ?_⟩, ?_⟩
  · rw [resolve_file]
    cases ofPath? (.ofText file) <;> simp
  · rw [resolve_file, Filing.exists_noReader_iff]
    cases ofPath? (.ofText file) <;> simp
  · intro explicit path direction format hformat
    have hmem := mem_of_resolve hformat
    constructor
    · rintro rfl
      have hreader : withName? readers format.name = some format := withName?_of_mem hmem
      rw [Conversion.reader, hreader]
    · rintro rfl
      have hwriter : withName? writers format.name = some format := withName?_of_mem hmem
      rw [Conversion.writer, hwriter]

/-- Letters in any case, further dots, hidden names and a slash at the end make no difference. -/
theorem resolve_agrees_notes :
    resolve none (some ".d/notes.csv.TXT/") .input = .ok .text ∧
      resolve (some "CSV") (some "notes.txt") .output = .ok .csv ∧
      Conversion.writer csv.name = .ok .csv := by
  have hfile : ofPath? (.ofText ".d/notes.csv.TXT/") = some .text := by decide +kernel
  have hnamed : resolve (some "CSV") (some "notes.txt") .output = .ok .csv :=
    resolve_named (by decide) (by decide +kernel) (by decide) _
  have hpicked := (resolve_agrees.1 ".d/notes.csv.TXT/").1 .text
  have hwritten := resolve_agrees.2 _ _ _ _ hnamed
  exact ⟨hpicked.2 hfile, hnamed, hwritten.2 rfl⟩

end Format

end Interchange
