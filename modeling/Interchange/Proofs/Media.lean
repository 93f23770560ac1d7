import Interchange.Conversion
import Interchange.Media
import Interchange.Proofs.FileTree
import Interchange.Proofs.Text.Paragraphs

/-!
# Media files that are kept apart

Resources get a file each, in the directory that is asked for, if and only if their identifiers with
the extensions are names, and all different ones. An identifier is followed as a path: one with
slashes may lead to another directory, and two of them may lead to the same file.
-/
namespace Interchange.Media

variable {tree after : FileTree} {directory : Path} {place : Place} {id : ResourceId}
  {resource : Resource} {resources : List (ResourceId × Resource)}

/-- The name that a resource has in the directory, if it is written there. -/
def fileName? (entry : ResourceId × Resource) : Option String :=
  match Path.ofText (entry.1.text ++ extension entry.2.mimeType) with
  | ⟨"", [name]⟩ => if FileTree.hasZero name then none else some name
  | _ => none

lemma fileName?_eq_some_iff {entry : ResourceId × Resource} {name : String} :
    fileName? entry = some name ↔
      Path.ofText (entry.1.text ++ extension entry.2.mimeType) = ⟨"", [name]⟩ ∧
        FileTree.hasZero name = false := by
  rw [fileName?]
  split
  · next other hpath =>
    rw [hpath]
    by_cases hzero : FileTree.hasZero other = true
    · simp only [hzero, if_true, reduceCtorEq, Path.mk.injEq, true_and, List.cons.injEq, and_true,
        false_iff, not_and]
      rintro rfl
      simp [hzero]
    · simp only [hzero, if_false, Option.some.injEq, Path.mk.injEq, true_and, List.cons.injEq,
        and_true, Bool.false_eq_true, iff_self_and]
      rintro rfl
      exact Bool.eq_false_of_not_eq_true hzero
  · next hpath =>
    simp only [reduceCtorEq, false_iff, not_and]
    intro hname
    exact absurd hname (hpath name)

/-- A dot with letters or digits after it. -/
def isExtension (text : String) : Bool :=
  match text.toList with
  | '.' :: c :: cs => (c :: cs).all Char.isAlphanum
  | _ => false

lemma isExtension_extension (mimeType : String) : isExtension (extension mimeType) = true := by
  have htable : ∀ entry ∈ extensions, isExtension entry.2 = true := by decide +kernel
  rw [extension]
  split
  · next found => exact htable _ (List.mem_of_find?_eq_some found)
  · decide +kernel

lemma extension_chars (mimeType : String) :
    ∃ c cs, (extension mimeType).toList = '.' :: c :: cs ∧ ∀ d ∈ c :: cs, d.isAlphanum = true := by
  have h := isExtension_extension mimeType
  rw [isExtension] at h
  split at h
  · next c cs hchars => exact ⟨c, cs, hchars, List.all_eq_true.1 h⟩
  · simp at h

lemma slash_notMem_extension (mimeType : String) : '/' ∉ (extension mimeType).toList := by
  obtain ⟨c, cs, hchars, hall⟩ := extension_chars mimeType
  rw [hchars, List.mem_cons, not_or]
  exact ⟨by decide, fun hmem => absurd (hall '/' hmem) (by decide)⟩

/-- The last name on the path of a resource ends in the extension. -/
lemma names_ofText (text mimeType : String) : ∃ above last,
    (Path.ofText (text ++ extension mimeType)).names =
      above ++ [String.ofList (last ++ (extension mimeType).toList)] := by
  obtain ⟨above, last, -, hsplit⟩ :=
    Text.splitAt_append_last (slash_notMem_extension mimeType) text.toList
  obtain ⟨c, cs, hchars, -⟩ := extension_chars mimeType
  have hlast : last ++ (extension mimeType).toList ≠ [] ∧
      last ++ (extension mimeType).toList ≠ ['.'] := by
    rw [hchars]
    cases last <;> simp
  refine ⟨(above.filter fun piece => piece ≠ [] ∧ piece ≠ ['.']).map String.ofList, last, ?_⟩
  rw [Path.ofText]
  dsimp only
  rw [String.toList_append, hsplit, List.filter_append, List.map_append]
  have hkept : [last ++ (extension mimeType).toList].filter (fun piece => piece ≠ [] ∧ piece ≠ ['.']) =
      [last ++ (extension mimeType).toList] := List.filter_cons_of_pos (decide_eq_true hlast)
  rw [hkept]
  rfl

lemma fileName?_ne_dots {entry : ResourceId × Resource} {name : String}
    (h : fileName? entry = some name) : name ≠ ".." := by
  obtain ⟨hpath, -⟩ := fileName?_eq_some_iff.1 h
  obtain ⟨above, last, hnames⟩ := names_ofText entry.1.text entry.2.mimeType
  obtain ⟨c, cs, hchars, hall⟩ := extension_chars entry.2.mimeType
  rw [hpath] at hnames
  have hname : name = String.ofList (last ++ '.' :: c :: cs) := by
    cases above with
    | nil => simpa [hchars] using hnames
    | cons _ above => simp at hnames
  rintro rfl
  have hdots : some '.' = (last ++ '.' :: c :: cs).getLast? := by
    rw [← String.toList_ofList (l := last ++ '.' :: c :: cs), ← hname]
    rfl
  rw [List.getLast?_append_of_ne_nil _ (List.cons_ne_nil _ _), List.getLast?_cons_cons] at hdots
  exact absurd (hall '.' (List.mem_of_getLast? hdots.symm)) (by decide)

lemma ofText_of_notMem {text : String} (hslash : '/' ∉ text.toList) (hnil : text.toList ≠ [])
    (hdot : text.toList ≠ ['.']) : Path.ofText text = ⟨"", [text]⟩ := by
  have hsplit : Text.splitAt '/' text.toList = [text.toList] := by
    simpa [Text.splitAt] using Text.splitAt_append hslash []
  have hroot : Path.rootOf text.toList = "" := by
    unfold Path.rootOf
    split <;> simp_all
  have hkept : [text.toList].filter (fun piece => piece ≠ [] ∧ piece ≠ ['.']) = [text.toList] :=
    List.filter_cons_of_pos (decide_eq_true ⟨hnil, hdot⟩)
  rw [Path.ofText, hroot, hsplit, hkept, List.map_singleton, String.ofList_toList]

/-- A resource whose identifier has no slash and no zero gets that identifier as the name. -/
lemma fileName?_of_plain {entry : ResourceId × Resource} (hslash : '/' ∉ entry.1.text.toList)
    (hzero : '\x00' ∉ entry.1.text.toList) :
    fileName? entry = some (entry.1.text ++ extension entry.2.mimeType) := by
  obtain ⟨c, cs, hchars, hall⟩ := extension_chars entry.2.mimeType
  have hslashes : '/' ∉ entry.1.text.toList ++ (extension entry.2.mimeType).toList := by
    rw [List.mem_append, not_or]
    exact ⟨hslash, slash_notMem_extension _⟩
  have hzeros : '\x00' ∉ entry.1.text.toList ++ (extension entry.2.mimeType).toList := by
    rw [hchars, List.mem_append, List.mem_cons, not_or, not_or]
    exact ⟨hzero, by decide, fun hmem => absurd (hall _ hmem) (by decide)⟩
  rw [← String.toList_append] at hslashes hzeros
  have hpath := ofText_of_notMem hslashes (by simp [hchars]) (by
    rw [String.toList_append, hchars]
    cases entry.1.text.toList <;> simp)
  rw [fileName?_eq_some_iff, FileTree.hasZero]
  exact ⟨hpath, by simpa using hzeros⟩

/-- An extension has one dot, so a name shows the identifier. -/
lemma eq_of_append_extension {cs ds : List Char} {mimeType other : String}
    (h : cs ++ (extension mimeType).toList = ds ++ (extension other).toList) : cs = ds := by
  let stem (text : List Char) : List Char := (text.reverse.dropWhile (· ≠ '.')).drop 1
  have hstem (text : List Char) (mimeType : String) :
      stem (text ++ (extension mimeType).toList) = text.reverse := by
    obtain ⟨c, cs, hchars, hall⟩ := extension_chars mimeType
    have hother : ∀ d ∈ (c :: cs).reverse, decide (d ≠ '.') = true := by
      intro d hd
      have halnum := hall d (List.mem_reverse.1 hd)
      rw [decide_eq_true_iff]
      rintro rfl
      exact absurd halnum (by decide)
    change ((text ++ _).reverse.dropWhile (· ≠ '.')).drop 1 = _
    rw [hchars, List.reverse_append, List.reverse_cons, List.append_assoc,
      List.dropWhile_append_of_pos hother]
    simp
  have hequal := congrArg stem h
  rw [hstem, hstem] at hequal
  exact List.reverse_injective hequal

/-- What is different after the resources were written to a directory under these names. -/
structure Added (place : Place) (names : List String) (resources : List (ResourceId × Resource))
    (before after : FileTree) : Prop where
  files : List.Forall₂ (fun name entry =>
    after.get? (place ++ [name]) = some (.file (.bytes entry.2.data))) names resources
  others : ∀ other, (∀ name ∈ names, other ≠ place ++ [name]) → after.get? other = before.get? other

/-- Resources that get a file each, in whatever directory, unless a directory of that name is there
already. -/
def KeptApart (resources : List (ResourceId × Resource)) : Prop :=
  ∀ (directory : Path) (tree made : FileTree), tree.ensureDirectory directory = .ok made →
    ∃ place, made.locate directory = .ok place ∧
      ((∀ entry ∈ resources, ∀ name ∈ fileName? entry,
        made.get? (place ++ [name]) ≠ some .directory) →
        ∃ after names, extract directory tree resources = (after, none) ∧
          names.Nodup ∧ Added place names resources made after)

lemma path_of_relative {names : List String}
    (h : Path.ofText (id.text ++ extension resource.mimeType) = ⟨"", names⟩) :
    path directory id resource = ⟨directory.root, directory.names ++ names⟩ := by
  rw [path, h]
  rfl

lemma path_of_absolute {root : String} {names : List String} (hroot : root ≠ "")
    (h : Path.ofText (id.text ++ extension resource.mimeType) = ⟨root, names⟩) :
    path directory id resource = ⟨root, names⟩ := by
  rw [path, h, Path.join, if_pos (by simpa [Path.isAbsolute] using hroot)]

lemma write_child {name : String} (hplace : tree.locate directory = .ok place)
    (hdirectory : tree.get? place = some .directory) (hname : fileName? (id, resource) = some name)
    (hfree : tree.get? (place ++ [name]) ≠ some .directory) :
    tree.write (path directory id resource) (.bytes resource.data) =
      .ok (tree.put (place ++ [name]) (.file (.bytes resource.data))) := by
  obtain ⟨hpath, hzero⟩ := fileName?_eq_some_iff.1 hname
  obtain ⟨hzeros, hfollow⟩ := FileTree.locate_ok_iff.1 hplace
  have hstep : FileTree.step place name = place ++ [name] := if_neg (fileName?_ne_dots hname)
  have hlocate : tree.locate (path directory id resource) = .ok (place ++ [name]) := by
    rw [path_of_relative hpath, FileTree.locate_ok_iff]
    constructor
    · simpa [or_imp, forall_and, hzero] using hzeros
    · refine FileTree.follow_append_ok_iff.2 ⟨place, hfollow, ?_⟩
      rw [FileTree.follow_cons_ok_iff, hstep]
      exact ⟨hdirectory, rfl⟩
  exact FileTree.write_ok_iff.2 ⟨_, hlocate, hfree, rfl⟩

/-- The induction is on the resources that are still to be written; what was written leaves the
directory where it is. -/
theorem saveAll_added {names : List String} (hplace : tree.locate directory = .ok place)
    (hdirectory : tree.get? place = some .directory)
    (hnames : resources.map fileName? = names.map some) (hnodup : names.Nodup)
    (hfree : ∀ name ∈ names, tree.get? (place ++ [name]) ≠ some .directory) :
    ∃ after, saveAll directory tree resources = (after, none) ∧
      Added place names resources tree after := by
  induction resources generalizing tree names with
  | nil =>
    obtain rfl : names = [] := by simpa using hnames.symm
    exact ⟨tree, rfl, .nil, fun _ _ => rfl⟩
  | cons entry resources ih =>
    obtain ⟨id, resource⟩ := entry
    cases names with
    | nil => simp at hnames
    | cons name names =>
      obtain ⟨hname, hrest⟩ := List.cons.inj hnames
      obtain ⟨hnew, hnodup⟩ := List.nodup_cons.1 hnodup
      obtain ⟨hfirst, hothers⟩ := List.forall_mem_cons.1 hfree
      have hput := FileTree.get?_put (FileTree.put_place_ne_nil hfirst) tree
        (.file (.bytes resource.data))
      obtain ⟨after, hsaved, hfiles, hkept⟩ := ih (FileTree.locate_put hfirst hplace)
        (FileTree.directories_put hfirst place hdirectory) hrest hnodup fun other hmem => by
          have hne : name ≠ other := by
            rintro rfl
            exact hnew hmem
          rw [hput, if_neg (by simpa using hne)]
          exact hothers other hmem
      refine ⟨after, ?_, .cons ?_ hfiles, ?_⟩
      · rw [saveAll, write_child hplace hdirectory hname hfirst]
        exact hsaved
      · rw [hkept, hput, if_pos rfl]
        intro other hmem hequal
        obtain rfl : name = other := by simpa using hequal
        exact hnew hmem
      · intro other hother
        obtain ⟨hne, hothers⟩ := List.forall_mem_cons.1 hother
        rw [hkept other hothers, hput, if_neg (Ne.symm hne)]

theorem keptApart_of_names {names : List String} (hnames : resources.map fileName? = names.map some)
    (hnodup : names.Nodup) : KeptApart resources := by
  intro directory tree made hmade
  obtain ⟨place, hplace, hdirectory⟩ := FileTree.ensureDirectory_ok hmade
  refine ⟨place, hplace, fun hfree => ?_⟩
  have hfree' : ∀ name ∈ names, made.get? (place ++ [name]) ≠ some .directory := by
    intro name hname
    have hmem : some name ∈ resources.map fileName? := hnames ▸ List.mem_map_of_mem hname
    obtain ⟨entry, hentry, hsome⟩ := List.mem_map.1 hmem
    exact hfree entry hentry name hsome
  obtain ⟨after, hsaved, hadded⟩ := saveAll_added hplace hdirectory hnames hnodup hfree'
  refine ⟨after, names, ?_, hnodup, hadded⟩
  rw [extract, hmade]
  exact hsaved

/-- The identifiers in a document are all different, so it is enough that they have no slashes and
no zeros. -/
theorem keptApart_of_plain (format : Format) {doc : Document}
    (h : ∀ entry ∈ doc.resources.entries,
      '/' ∉ entry.1.text.toList ∧ '\x00' ∉ entry.1.text.toList) :
    KeptApart (format.exportable doc) := by
  have hsublist : (format.exportable doc).Sublist doc.resources.entries := by
    cases format <;> simp [Format.exportable]
  have hkeys : ((format.exportable doc).map Prod.fst).Nodup :=
    doc.resources.nodup.sublist (hsublist.map _)
  have hnames : (format.exportable doc).map fileName? =
      ((format.exportable doc).map fun entry => entry.1.text ++ extension entry.2.mimeType).map
        some := by
    rw [List.map_map]
    refine List.map_congr_left fun entry hmem => ?_
    obtain ⟨hslash, hzero⟩ := h entry (hsublist.subset hmem)
    exact fileName?_of_plain hslash hzero
  refine keptApart_of_names hnames (List.Nodup.map_on ?_ (.of_map _ hkeys))
  intro entry hentry other hother hequal
  have hchars := congrArg String.toList hequal
  rw [String.toList_append, String.toList_append] at hchars
  have htexts := String.toList_injective (eq_of_append_extension hchars)
  exact List.inj_on_of_nodup_map hkeys hentry hother (congrArg ResourceId.mk htexts)

/-- A tree whose only directories are the root and one in it. -/
structure Shallow (d : String) (tree : FileTree) : Prop where
  home : tree.home = []
  directory_iff : ∀ p, tree.get? p = some .directory ↔ p = [] ∨ p = [d]

variable {d : String}

lemma Shallow.put {stored : Payload} (h : Shallow d tree)
    (hplace : tree.get? place ≠ some .directory) : Shallow d (tree.put place (.file stored)) := by
  refine ⟨h.home, fun p => ?_⟩
  rw [FileTree.get?_put (FileTree.put_place_ne_nil hplace)]
  split
  · next hequal =>
    subst hequal
    simpa using mt (h.directory_iff place).2 hplace
  · exact h.directory_iff p

/-- From the root, names other than that of the directory lead nowhere but to the root again and to
places beside the directory. -/
lemma Shallow.follow_root (h : Shallow d tree) {names : List String} (hnames : d ∉ names)
    {last : Place} (hlast : tree.follow [] names = .ok last) :
    last = [] ∨ ∃ name, name ≠ d ∧ last = [name] := by
  induction names with
  | nil => exact .inl (Except.ok.inj hlast).symm
  | cons name names ih =>
    obtain ⟨hname, hrest⟩ := not_or.1 (mt List.mem_cons.2 hnames)
    obtain ⟨-, hlast⟩ := FileTree.follow_cons_ok_iff.1 hlast
    rw [FileTree.step] at hlast
    split at hlast
    · exact ih hrest hlast
    · cases names with
      | nil => exact .inr ⟨name, Ne.symm hname, (Except.ok.inj hlast).symm⟩
      | cons second names =>
        obtain ⟨hdirectory, -⟩ := FileTree.follow_cons_ok_iff.1 hlast
        rcases (h.directory_iff _).1 hdirectory with hequal | hequal
        · simp at hequal
        · exact absurd (by simpa using hequal.symm) hname

/-- From the directory, only a single name leads to a place in it. -/
lemma Shallow.follow_directory (h : Shallow d tree) {names : List String} (hnames : d ∉ names)
    {last : Place} (hlast : tree.follow [d] names = .ok last) :
    last = [] ∨ last = [d] ∨ (∃ name, name ≠ d ∧ last = [name]) ∨
      ∃ name, names = [name] ∧ last = [d, name] := by
  cases names with
  | nil => exact .inr (.inl (Except.ok.inj hlast).symm)
  | cons name names =>
    obtain ⟨-, hrest⟩ := not_or.1 (mt List.mem_cons.2 hnames)
    obtain ⟨-, hlast⟩ := FileTree.follow_cons_ok_iff.1 hlast
    rw [FileTree.step] at hlast
    split at hlast
    · rcases h.follow_root hrest hlast with hlast | hlast
      · exact .inl hlast
      · exact .inr (.inr (.inl hlast))
    · cases names with
      | nil => exact .inr (.inr (.inr ⟨name, rfl, (Except.ok.inj hlast).symm⟩))
      | cons second names =>
        obtain ⟨hdirectory, -⟩ := FileTree.follow_cons_ok_iff.1 hlast
        simpa using (h.directory_iff _).1 hdirectory

/-- Whether a file is stored at a place. -/
def IsFile (tree : FileTree) (place : Place) : Prop := ∃ content, tree.get? place = some (.file content)

lemma isFile_write {target : Path} {content : Payload} (h : tree.write target content = .ok after)
    (hplace : IsFile tree place) : IsFile after place := by
  obtain ⟨other, -, hfree, rfl⟩ := FileTree.write_ok_iff.1 h
  obtain ⟨stored, hstored⟩ := hplace
  rw [IsFile, FileTree.get?_put (FileTree.put_place_ne_nil hfree)]
  split
  · exact ⟨content, rfl⟩
  · exact ⟨stored, hstored⟩

lemma isFile_saveAll (h : saveAll directory tree resources = (after, none))
    (hplace : IsFile tree place) : IsFile after place := by
  induction resources generalizing tree with
  | nil =>
    obtain rfl : tree = after := congrArg Prod.fst h
    exact hplace
  | cons entry resources ih =>
    rw [saveAll] at h
    split at h
    · next hwritten => exact ih h (isFile_write hwritten hplace)
    · simp at h

/-- A resource is written in the directory, and then under its name, or else beside it. -/
lemma Shallow.write (h : Shallow d tree) (hd : d ≠ "..")
    (hnames : d ∉ (Path.ofText (id.text ++ extension resource.mimeType)).names) {content : Payload}
    (hwritten : tree.write (path ⟨"", [d]⟩ id resource) content = .ok after) :
    Shallow d after ∧ ((∃ name, name ≠ d ∧ IsFile after [name]) ∨
      ∃ name, fileName? (id, resource) = some name ∧
        ∀ other, after.get? other =
          if [d, name] = other then some (.file content) else tree.get? other) := by
  obtain ⟨last, hlocate, hfree, rfl⟩ := FileTree.write_ok_iff.1 hwritten
  obtain ⟨hzero, hfollow⟩ := FileTree.locate_ok_iff.1 hlocate
  have hput := FileTree.get?_put (FileTree.put_place_ne_nil hfree) tree (.file content)
  have hbeside {name : String} (hlast : last = [name]) :
      IsFile (tree.put last (.file content)) [name] :=
    ⟨content, by rw [hput, if_pos hlast]⟩
  refine ⟨h.put hfree, ?_⟩
  cases hpath : Path.ofText (id.text ++ extension resource.mimeType) with
  | mk root names =>
    rw [hpath] at hnames
    by_cases hroot : root = ""
    · -- From where the files are, the path may still lead out of the directory, by its dots.
      subst hroot
      have hstart : tree.start ⟨"", [d] ++ names⟩ = [] := h.home
      have hstep : FileTree.step [] d = [d] := if_neg hd
      rw [path_of_relative hpath] at hzero hfollow
      rw [hstart, List.singleton_append, FileTree.follow_cons_ok_iff, hstep] at hfollow
      rcases h.follow_directory hnames hfollow.2 with hlast | hlast | ⟨name, hne, hlast⟩ |
        ⟨name, hname, hlast⟩
      · exact absurd ((h.directory_iff last).2 (.inl hlast)) hfree
      · exact absurd ((h.directory_iff last).2 (.inr hlast)) hfree
      · exact .inl ⟨name, hne, hbeside hlast⟩
      · subst hname hlast
        refine .inr ⟨name, fileName?_eq_some_iff.2 ⟨hpath, ?_⟩, hput⟩
        exact hzero name (List.mem_append_right _ List.mem_cons_self)
    · have hstart : tree.start ⟨root, names⟩ = [] := if_pos (by simpa [Path.isAbsolute] using hroot)
      rw [path_of_absolute hroot hpath, hstart] at hfollow
      rcases h.follow_root hnames hfollow with hlast | ⟨name, hne, hlast⟩
      · exact absurd ((h.directory_iff last).2 (.inl hlast)) hfree
      · exact .inl ⟨name, hne, hbeside hlast⟩

/-- After all resources were written, a file stands beside the directory, or else each resource has
a name and the files in the directory have these names. -/
theorem Shallow.saveAll (h : Shallow d tree) (hd : d ≠ "..")
    (hnames : ∀ entry ∈ resources,
      d ∉ (Path.ofText (entry.1.text ++ extension entry.2.mimeType)).names)
    (hsaved : saveAll ⟨"", [d]⟩ tree resources = (after, none)) :
    (∃ name, name ≠ d ∧ IsFile after [name]) ∨
      ∃ names : List String, resources.map fileName? = names.map some ∧
        ∀ name, IsFile after [d, name] → name ∈ names ∨ IsFile tree [d, name] := by
  induction resources generalizing tree with
  | nil =>
    obtain rfl : tree = after := congrArg Prod.fst hsaved
    exact .inr ⟨[], rfl, fun name hname => .inr hname⟩
  | cons entry resources ih =>
    obtain ⟨hfirst, hrest⟩ := List.forall_mem_cons.1 hnames
    rw [Media.saveAll] at hsaved
    split at hsaved
    · next hwritten =>
      obtain ⟨hshallow, ⟨name, hne, hfile⟩ | ⟨name, hname, hget⟩⟩ := h.write hd hfirst hwritten
      · exact .inl ⟨name, hne, isFile_saveAll hsaved hfile⟩
      · rcases ih hshallow hrest hsaved with hbeside | ⟨names, hmap, hfiles⟩
        · exact .inl hbeside
        · refine .inr ⟨name :: names, by rw [List.map_cons, hname, hmap, List.map_cons], ?_⟩
          intro other hother
          rcases hfiles other hother with hmem | hfile
          · exact .inl (List.mem_cons_of_mem name hmem)
          · rw [IsFile, hget] at hfile
            split at hfile
            · next hequal =>
              obtain rfl : name = other := by simpa using hequal
              exact .inl List.mem_cons_self
            · exact .inr hfile
    · simp at hsaved

/-- There is always a name that is not among given ones. -/
lemma exists_fresh_name (names : List String) :
    ∃ d : String, d ∉ names ∧ d ≠ ".." ∧ FileTree.hasZero d = false := by
  let nth (n : ℕ) : String := String.ofList (List.replicate n 'a')
  have hinjective : Function.Injective nth := by
    intro m n hequal
    have hlength := congrArg (fun text => text.toList.length) hequal
    simpa [nth] using hlength
  obtain ⟨d, ⟨n, rfl⟩, hfresh⟩ :=
    (Set.infinite_range_of_injective hinjective).exists_notMem_finset names.toFinset
  refine ⟨nth n, by simpa using hfresh, ?_, ?_⟩
  · intro hdots
    have hmem : '.' ∈ (nth n).toList := by
      rw [hdots]
      decide
    simp [nth] at hmem
  · simp [FileTree.hasZero, nth]

/-- A tree with a directory and nothing else. -/
def bare (d : String) : FileTree := (⟨[], .empty⟩ : FileTree).put [d] .directory

lemma get?_bare (d : String) (p : Place) :
    (bare d).get? p = if p = [] ∨ p = [d] then some .directory else none := by
  rw [bare, FileTree.get?_put (List.cons_ne_nil d [])]
  by_cases hp : [d] = p
  · simp [hp]
  · by_cases hnil : p = []
    · simp [hnil]
    · rw [if_neg hp, if_neg (not_or.2 ⟨hnil, Ne.symm hp⟩), FileTree.get?, if_neg hnil]
      rfl

lemma shallow_bare (d : String) : Shallow d (bare d) := by
  refine ⟨rfl, fun p => ?_⟩
  rw [get?_bare]
  split
  · next hp => simpa using hp
  · next hp => simpa using hp

lemma locate_bare (hd : d ≠ "..") (hzero : FileTree.hasZero d = false) :
    (bare d).locate ⟨"", [d]⟩ = .ok [d] := by
  have hstep : FileTree.step [] d = [d] := if_neg hd
  have hstart : (bare d).start ⟨"", [d]⟩ = [] := rfl
  rw [FileTree.locate_ok_iff, hstart, FileTree.follow_cons_ok_iff, hstep]
  exact ⟨by simpa using hzero, rfl, rfl⟩

/-- In a directory that was empty, the files tell the names. -/
theorem names_of_keptApart (h : KeptApart resources) :
    ∃ names : List String, resources.map fileName? = names.map some ∧ names.Nodup := by
  obtain ⟨d, hfresh, hd, hzero⟩ := exists_fresh_name
    (resources.flatMap fun entry => (Path.ofText (entry.1.text ++ extension entry.2.mimeType)).names)
  have hnames : ∀ entry ∈ resources,
      d ∉ (Path.ofText (entry.1.text ++ extension entry.2.mimeType)).names :=
    fun entry hentry hmem => hfresh (List.mem_flatMap.2 ⟨entry, hentry, hmem⟩)
  have hlocate := locate_bare hd hzero
  have hdirectory : (bare d).get? [d] = some .directory := by simp [get?_bare]
  have hmade := FileTree.ensureDirectory_of_directory hlocate hdirectory
  obtain ⟨place, hplace, hwhole⟩ := h ⟨"", [d]⟩ (bare d) (bare d) hmade
  obtain rfl : [d] = place := by
    rw [hlocate] at hplace
    exact Except.ok.inj hplace
  obtain ⟨after, written, hextracted, hnodup, hfiles, hothers⟩ :=
    hwhole fun entry _ name _ => by simp [get?_bare]
  have hsaved : saveAll ⟨"", [d]⟩ (bare d) resources = (after, none) := by
    rwa [extract, hmade] at hextracted
  rcases (shallow_bare d).saveAll hd hnames hsaved with ⟨name, hne, content, hcontent⟩ |
    ⟨names, hmap, hnew⟩
  · -- nothing may change beside the directory
    rw [hothers [name] (by simp), get?_bare, if_neg (by simpa using hne)] at hcontent
    simp at hcontent
  · -- as many files as resources, and all have names of resources
    have hwritten : ∀ name ∈ written, IsFile after [d, name] :=
      ((List.forall₂_and_left _ _).1 (hfiles.imp fun name entry hfile =>
        And.intro (⟨_, hfile⟩ : IsFile after [d, name]) hfile)).1
    have hsubset : written ⊆ names := by
      intro name hname
      refine (hnew name (hwritten name hname)).resolve_right ?_
      rintro ⟨content, hcontent⟩
      simp [get?_bare] at hcontent
    have hlength : names.length ≤ written.length := by
      have hresources := congrArg List.length hmap
      rw [List.length_map, List.length_map] at hresources
      rw [← hresources, hfiles.length_eq]
    have hperm := (hnodup.subperm hsubset).perm_of_length_le hlength
    exact ⟨names, hmap, hperm.nodup_iff.1 hnodup⟩

/-- The resources that a format exports are kept apart, whatever directory they are extracted to, if
and only if they have names for files, and all different ones. -/
theorem keptApart_exportable_iff (format : Format) (doc : Document) :
    KeptApart (format.exportable doc) ↔
      ∃ names : List String, (format.exportable doc).map fileName? = names.map some ∧ names.Nodup :=
  ⟨names_of_keptApart, fun ⟨_, hnames, hnodup⟩ => keptApart_of_names hnames hnodup⟩

/-- An identifier that leads to the directory above. -/
theorem not_keptApart_exportable_above :
    ¬KeptApart (Format.text.exportable
      { Document.empty with
        resources := OrderedMap.empty.insert ⟨"../evil"⟩ (.png ⟨#[0, 1, 2]⟩) }) := by
  intro h
  obtain ⟨names, hnames, -⟩ := names_of_keptApart h
  have hnone : fileName? (⟨"../evil"⟩, .png ⟨#[0, 1, 2]⟩) = none := by decide +kernel
  have hmap : [fileName? (⟨"../evil"⟩, .png ⟨#[0, 1, 2]⟩)] = names.map some := hnames
  rw [hnone] at hmap
  cases names with
  | nil => simp at hmap
  | cons name names => simp at hmap

end Interchange.Media
