import Interchange.FileTree
import Interchange.Proofs.Failure
import Mathlib.Tactic

/-!
# Laws of file trees

What is put at a place changes no other place. A path that leads to a place still does when no
directory goes away, and a directory that is ensured can be found afterwards.
-/
namespace Interchange.FileTree

variable {tree after : FileTree} {path : Path} {place other : Place}

@[simp] lemma get?_nil (tree : FileTree) : tree.get? [] = some .directory := rfl

/-- A put changes its place and nothing else. -/
lemma get?_put (h : place ≠ []) (tree : FileTree) (stored : Stored) (other : Place) :
    (tree.put place stored).get? other = if place = other then some stored else tree.get? other := by
  by_cases hother : other = []
  · subst hother
    rw [if_neg h, get?_nil, get?_nil]
  · rw [get?, get?, if_neg hother, if_neg hother, put, OrderedMap.get?_insert]

lemma put_place_ne_nil (h : tree.get? place ≠ some .directory) : place ≠ [] := by
  rintro rfl
  exact h rfl

lemma follow_cons_ok_iff {name : String} {names : List String} :
    tree.follow place (name :: names) = .ok other ↔
      tree.get? place = some .directory ∧ tree.follow (step place name) names = .ok other := by
  rw [follow]
  split
  · next h => simp [h]
  · next h => simp [h]
  · next h => simp [h]

/-- The names of a path are followed in two parts. -/
theorem follow_append_ok_iff {names more : List String} {last : Place} :
    tree.follow place (names ++ more) = .ok last ↔
      ∃ middle, tree.follow place names = .ok middle ∧ tree.follow middle more = .ok last := by
  induction names generalizing place with
  | nil => simp [follow]
  | cons name names ih =>
    rw [List.cons_append, follow_cons_ok_iff, ih]
    simp only [follow_cons_ok_iff, and_assoc, exists_and_left]

/-- Where no directory goes away, a path leads where it led before. -/
theorem follow_of_directories {names : List String}
    (hkept : ∀ p, tree.get? p = some .directory → after.get? p = some .directory)
    (h : tree.follow place names = .ok other) : after.follow place names = .ok other := by
  induction names generalizing place with
  | nil => exact h
  | cons name names ih =>
    obtain ⟨hplace, hrest⟩ := follow_cons_ok_iff.1 h
    exact follow_cons_ok_iff.2 ⟨hkept place hplace, ih hrest⟩

lemma locate_ok_iff : tree.locate path = .ok place ↔
    (∀ name ∈ path.names, hasZero name = false) ∧
      tree.follow (tree.start path) path.names = .ok place := by
  rw [locate]
  split
  · next hzero =>
    obtain ⟨name, hmem, hname⟩ := List.any_eq_true.1 hzero
    simp only [reduceCtorEq, false_iff, not_and]
    intro hnone
    rw [hnone name hmem] at hname
    exact absurd hname Bool.false_ne_true
  · next hzero =>
    rw [Bool.not_eq_true, List.any_eq_false] at hzero
    cases hfollow : tree.follow (tree.start path) path.names with
    | error fault => simp [Except.mapError]
    | ok last =>
      simp only [Except.mapError, Except.ok.injEq, iff_and_self]
      exact fun _ name hmem => Bool.eq_false_of_not_eq_true (hzero name hmem)

theorem locate_of_directories (hhome : after.home = tree.home)
    (hkept : ∀ p, tree.get? p = some .directory → after.get? p = some .directory)
    (h : tree.locate path = .ok place) : after.locate path = .ok place := by
  obtain ⟨hzero, hfollow⟩ := locate_ok_iff.1 h
  have hstart : after.start path = tree.start path := by rw [start, start, hhome]
  rw [← hstart] at hfollow
  exact locate_ok_iff.2 ⟨hzero, follow_of_directories hkept hfollow⟩

/-- What is put where no directory is takes none away. -/
lemma directories_put {stored : Stored} (h : tree.get? place ≠ some .directory) (p : Place)
    (hp : tree.get? p = some .directory) : (tree.put place stored).get? p = some .directory := by
  have hne : place ≠ p := by
    rintro rfl
    exact h hp
  rw [get?_put (put_place_ne_nil h), if_neg hne, hp]

lemma locate_put {stored : Stored} {last : Place} (h : tree.get? place ≠ some .directory)
    (hlast : tree.locate path = .ok last) : (tree.put place stored).locate path = .ok last := by
  have hhome : (tree.put place stored).home = tree.home := rfl
  exact locate_of_directories hhome (directories_put h) hlast

theorem write_ok_iff {content : Payload} : tree.write path content = .ok after ↔
    ∃ place, tree.locate path = .ok place ∧ tree.get? place ≠ some .directory ∧
      after = tree.put place (.file content) := by
  rw [write, Except.bind_eq_ok_iff]
  refine exists_congr fun place => and_congr_right fun _ => ?_
  split
  · next h => simp [h]
  · next h => simpa [eq_comm] using fun _ hplace => h hplace.symm

lemma makeDirectory_ok {made : FileTree} (h : tree.makeDirectory path = .ok made) :
    ∃ place, made.locate path = .ok place ∧ made.get? place = some .directory := by
  rw [makeDirectory, Except.bind_eq_ok_iff] at h
  obtain ⟨place, hplace, h⟩ := h
  split at h
  · simp at h
  · next hnone =>
    have hfree : tree.get? place ≠ some .directory := by simp [hnone]
    obtain rfl : tree.put place .directory = made := by simpa using h
    refine ⟨place, locate_put hfree hplace, ?_⟩
    rw [get?_put (put_place_ne_nil hfree), if_pos rfl]

lemma isDirectory_iff : tree.isDirectory path = true ↔
    ∃ place, tree.locate path = .ok place ∧ tree.get? place = some .directory := by
  rw [isDirectory]
  cases hplace : tree.locate path with
  | error error => simp [Except.toOption]
  | ok place =>
    simp only [Except.toOption, Option.bind_some, Except.ok.injEq, exists_eq_left']
    split
    · next h => simp [h]
    · next h => simpa using h

lemma makeOrFind_ok {made : FileTree} (h : tree.makeOrFind path = .ok made) :
    ∃ place, made.locate path = .ok place ∧ made.get? place = some .directory := by
  rw [makeOrFind] at h
  split at h
  · next hmade =>
    obtain rfl := Except.ok.inj h
    exact makeDirectory_ok hmade
  · split at h
    · next hfound =>
      obtain rfl := Except.ok.inj h
      exact isDirectory_iff.1 hfound
    · simp at h

lemma makeDirectory_of_directory (hplace : tree.locate path = .ok place)
    (hdirectory : tree.get? place = some .directory) :
    tree.makeDirectory path = .error ⟨.alreadyThere, path⟩ := by
  rw [makeDirectory, hplace, Except.bind_ok, hdirectory]

lemma makeOrFind_of_directory (hplace : tree.locate path = .ok place)
    (hdirectory : tree.get? place = some .directory) : tree.makeOrFind path = .ok tree := by
  rw [makeOrFind, makeDirectory_of_directory hplace hdirectory]
  exact if_pos (isDirectory_iff.2 ⟨place, hplace, hdirectory⟩)

/-- A directory that is there is found. -/
theorem ensureDirectory_of_directory (hplace : tree.locate path = .ok place)
    (hdirectory : tree.get? place = some .directory) : tree.ensureDirectory path = .ok tree := by
  have hfound := makeOrFind_of_directory hplace hdirectory
  have hmade := makeDirectory_of_directory hplace hdirectory
  obtain ⟨root, names⟩ := path
  rw [ensureDirectory]
  cases hreversed : names.reverse with
  | nil =>
    obtain rfl : names = [] := by simpa using hreversed
    exact hfound
  | cons name above =>
    have hnames : (name :: above).reverse = names := by rw [← hreversed, List.reverse_reverse]
    rw [ensureFrom, hnames]
    dsimp only
    rw [hmade]
    exact hfound

/-- After all attempts at the directories above, the last step makes the directory or finds it. -/
theorem ensureDirectory_ok {made : FileTree} (h : tree.ensureDirectory path = .ok made) :
    ∃ place, made.locate path = .ok place ∧ made.get? place = some .directory := by
  obtain ⟨root, names⟩ := path
  rw [ensureDirectory] at h
  obtain ⟨reversed, rfl⟩ : ∃ reversed : List String, names = reversed.reverse :=
    ⟨names.reverse, names.reverse_reverse.symm⟩
  rw [List.reverse_reverse] at h
  cases reversed with
  | nil => exact makeOrFind_ok h
  | cons name above =>
    rw [ensureFrom] at h
    dsimp only at h
    split at h
    · obtain ⟨middle, -, hlast⟩ := Except.bind_eq_ok_iff.1 h
      exact makeOrFind_ok hlast
    · exact makeOrFind_ok h

end Interchange.FileTree
