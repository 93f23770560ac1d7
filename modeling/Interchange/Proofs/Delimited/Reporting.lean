import Interchange.Proofs.Delimited.Rereading
import Interchange.Proofs.Layout.Accounting

/-!
# Text that is reported as dropped

The table that is written is the first one in document order among those that have no table above
them. Other text is dropped; this is reported when some node at another place, and not below that
table, bears text that is not blank. Places tell the table from equal ones.
-/
namespace Interchange

namespace Node

/-- At the place is the first of the outermost tables. -/
structure IsFirstTable (root : Node) (place : List Nat) : Prop where
  outermost : root.IsOutermostTable place
  first : ∀ other, root.IsOutermostTable other → other ≠ place → place < other

variable {root : Node}

/-- What is found first comes first in the document. -/
lemma isFirstTable_iff {first : Placed} {others : List Placed}
    (h : root.placedTables = first :: others) {place : List Nat} :
    root.IsFirstTable place ↔ place = first.place := by
  have hsorted := pairwise_placedTables root
  rw [h] at hsorted
  have hfirst := (List.pairwise_cons.1 hsorted).1
  have houtermost : root.IsOutermostTable first.place :=
    exists_placedTables_iff.1 ⟨first, h ▸ List.mem_cons_self, rfl⟩
  have hbefore {other : List Nat} (hother : root.IsOutermostTable other) :
      other = first.place ∨ first.place < other := by
    obtain ⟨table, htable, rfl⟩ := exists_placedTables_iff.2 hother
    rcases List.mem_cons.1 (h ▸ htable) with rfl | htable
    · exact .inl rfl
    · exact .inr (hfirst table htable)
  constructor
  · intro hplace
    by_contra hne
    have hlt := hplace.first _ houtermost (Ne.symm hne)
    exact lt_asymm hlt ((hbefore hplace.outermost).resolve_left hne)
  · rintro rfl
    exact ⟨houtermost, fun other hother hne => (hbefore hother).resolve_left hne⟩

lemma holdsText_iff {node : Node} : node.holdsText = true ↔
    (node.kind = .text ∨ node.kind = .code ∨ node.kind = .codeBlock) ∧
      ∃ c ∈ node.textContent.toList, Text.isBlank c = false := by
  simp [holdsText, bearsText, Text.isBlankLine, or_assoc]

/-- There is text outside the first table. -/
theorem hasStrayText_iff_isFirstTable (h : root.tables ≠ []) : root.hasStrayText = true ↔
    ∃ first, root.IsFirstTable first ∧ ∃ place node, root.at? place = some node ∧
      node.holdsText = true ∧ ¬first <+: place := by
  obtain ⟨first, others, hplaced⟩ :=
    List.exists_cons_of_ne_nil fun hnil : root.placedTables = [] => h (by rw [tables, hnil]; rfl)
  simp only [hasStrayText_iff hplaced, isFirstTable_iff hplaced, exists_eq_left]

lemma not_isFirstTable (h : root.tables = []) (place : List Nat) : ¬root.IsFirstTable place := by
  rintro ⟨houtermost, -⟩
  obtain ⟨table, htable, -⟩ := exists_placedTables_iff.2 houtermost
  rw [List.map_eq_nil_iff.1 h] at htable
  exact absurd htable List.not_mem_nil

end Node

/-- A warning without a topic is given whenever it is noted. -/
lemma Notice.mem_settle_of_untitled {notices : List Notice} {warning : Warning}
    (h : ∀ notice ∈ notices, notice.warning = warning → notice.topic = none) :
    warning ∈ settle notices ↔ ∃ notice ∈ notices, notice.warning = warning := by
  rw [mem_settle_iff]
  constructor
  · rintro (⟨notice, hnotice, -, hwarning⟩ | ⟨topic, notice, hfound, hwarning⟩)
    · exact ⟨notice, hnotice, hwarning⟩
    · exact ⟨notice, List.mem_of_find?_eq_some hfound, hwarning⟩
  · rintro ⟨notice, hnotice, hwarning⟩
    exact .inl ⟨notice, hnotice, h notice hnotice hwarning, hwarning⟩

namespace Delimited

def strayText : Warning :=
  .featureLost "non-table content" "Content outside the table was dropped"

lemma warning_ne_of_mem_cellNotices {cell : Node} {notice : Notice} (h : notice ∈ cellNotices cell) :
    notice.warning ≠ strayText := by
  rw [cellNotices] at h
  split at h
  · exact absurd h List.not_mem_nil
  · obtain rfl := List.mem_singleton.1 h
    decide

lemma mem_tableNotices_iff {doc : Document} {tables : List Node} {notice : Notice}
    (h : notice.warning = strayText) :
    notice ∈ tableNotices doc tables ↔ doc.content.hasStrayText = true ∧ notice.topic = none := by
  obtain ⟨topic, _⟩ := notice
  obtain rfl := h
  have hmore (count : String) : strayText ≠ .featureLost "additional tables"
      ("Only the first of " ++ count ++ " tables was written") := by
    simp [strayText, Warning.featureLost]
  rw [tableNotices]
  dsimp only
  rw [List.mem_append, or_iff_right]
  · by_cases hstray : doc.content.hasStrayText = true
    · simp [hstray, Notice.always, strayText]
    · simp [hstray]
  · split
    · simp [Notice.always, hmore]
    · exact List.not_mem_nil

/-- Of all that is noted about a document only the text outside the table counts. -/
lemma strayText_mem_settle_iff {doc : Document} {tables rows : List Node} :
    strayText ∈ Notice.settle (tableNotices doc tables ++
      rows.flatMap fun row => row.children.flatMap cellNotices) ↔
        doc.content.hasStrayText = true := by
  have hcells (notice : Notice)
      (h : notice ∈ rows.flatMap fun row => row.children.flatMap cellNotices) :
      notice.warning ≠ strayText := by
    obtain ⟨row, -, hrow⟩ := List.mem_flatMap.1 h
    obtain ⟨cell, -, hcell⟩ := List.mem_flatMap.1 hrow
    exact warning_ne_of_mem_cellNotices hcell
  -- The notices of cells have a topic of their own, and none of them has this warning.
  rw [Notice.mem_settle_of_untitled]
  · constructor
    · rintro ⟨notice, hnotice, hwarning⟩
      rcases List.mem_append.1 hnotice with hnotice | hnotice
      · exact ((mem_tableNotices_iff hwarning).1 hnotice).1
      · exact absurd hwarning (hcells notice hnotice)
    · intro hstray
      exact ⟨.always strayText,
        List.mem_append_left _ ((mem_tableNotices_iff rfl).2 ⟨hstray, rfl⟩), rfl⟩
  · intro notice hnotice hwarning
    rcases List.mem_append.1 hnotice with hnotice | hnotice
    · exact ((mem_tableNotices_iff hwarning).1 hnotice).2
    · exact absurd hwarning (hcells notice hnotice)

/-- The warnings of a table that is written do not depend on what ends its rows. -/
lemma warnings_of_write {dialect : Dialect} {doc : Document} {options : WriteOptions}
    {outcome : Outcome String} {table : Node} {others : List Node}
    (h : write dialect doc options = .ok outcome) (htables : doc.content.tables = table :: others) :
    outcome.warnings = Notice.settle (tableNotices doc (table :: others) ++
      table.children.flatMap fun row => row.children.flatMap cellNotices) := by
  rw [write, htables] at h
  dsimp only at h
  split at h
  · exact (Except.ok.inj h) ▸ rfl
  · cases hending : terminator (Settings.merge writeSettings options.extra) with
    | ok ending =>
      rw [hending] at h
      exact (Except.ok.inj h) ▸ rfl
    | error fault =>
      rw [hending] at h
      cases h

lemma strayText_mem_warnings_iff {dialect : Dialect} {doc : Document} {options : WriteOptions}
    {outcome : Outcome String} (h : write dialect doc options = .ok outcome) :
    strayText ∈ outcome.warnings ↔
      doc.content.tables ≠ [] ∧ doc.content.hasStrayText = true := by
  cases htables : doc.content.tables with
  | nil =>
    rw [write, htables] at h
    obtain rfl := Except.ok.inj h
    have hnoTable : strayText ∉ [noTable] := by decide
    simpa using hnoTable
  | cons table others =>
    rw [warnings_of_write h htables, strayText_mem_settle_iff]
    simp

/-- Writing fails only where rows are to be ended by something that is no text. -/
lemma exists_write {dialect : Dialect} {doc : Document} {options : WriteOptions} {ending : String}
    (h : terminator (Settings.merge writeSettings options.extra) = .ok ending) :
    ∃ outcome, write dialect doc options = .ok outcome := by
  cases htables : doc.content.tables with
  | nil => exact ⟨⟨"", [noTable]⟩, by rw [write, htables]⟩
  | cons table others => exact ⟨_, write_of_terminator dialect htables h⟩

/-- The tables of a tree are, in document order and each of them once, the tables that have no table
above them. When a document is written, text that is dropped is reported exactly where there is a
first table and some text or code at a place that does not lie in it has a text that is not blank. -/
theorem write_reports_stray_text :
    (∀ root : Node, root.Lists root.IsOutermostTable root.tables) ∧
    ∀ (dialect : Dialect) (doc : Document) (options : WriteOptions),
      ((∃ ending, terminator (Settings.merge writeSettings options.extra) = .ok ending) →
        ∃ outcome, write dialect doc options = .ok outcome) ∧
      ∀ outcome, write dialect doc options = .ok outcome →
        (strayText ∈ outcome.warnings ↔
          ∃ first, doc.content.IsFirstTable first ∧
            ∃ place part, doc.content.at? place = some part ∧ ¬first <+: place ∧
              (part.kind = .text ∨ part.kind = .code ∨ part.kind = .codeBlock) ∧
              ∃ c ∈ part.textContent.toList, Text.isBlank c = false) := by
  refine ⟨Node.lists_tables, fun dialect doc options => ⟨?_, fun outcome houtcome => ?_⟩⟩
  · rintro ⟨ending, hending⟩
    exact exists_write hending
  · rw [strayText_mem_warnings_iff houtcome]
    by_cases htables : doc.content.tables = []
    · refine iff_of_false (fun h => h.1 htables) ?_
      rintro ⟨first, hfirst, -⟩
      exact Node.not_isFirstTable htables first hfirst
    · rw [Node.hasStrayText_iff_isFirstTable htables, and_iff_right htables]
      simp only [Node.holdsText_iff, and_comm (b := ¬ _ <+: _)]

/-- The second of two equal tables is not written, and its text is reported. -/
theorem write_reports_stray_text_twins :
    let twin := Node.table [.tableRow [.tableCell true [.text "a"]]]
    let doc := Document.ofContent (.document [twin, twin])
    let outcome : Outcome String := ⟨"a\n", [.featureLost "additional tables"
      "Only the first of 2 tables was written", strayText]⟩
    write .comma doc .standard = .ok outcome ∧ doc.content.IsFirstTable [0] ∧
      strayText ∈ outcome.warnings := by
  intro twin doc outcome
  have hwritten : write .comma doc .standard = .ok outcome :=
    (write_of_tables .comma rfl).trans
      (congrArg Except.ok (congrArg₂ Outcome.mk (by decide +kernel) (by decide +kernel)))
  have hplaced : doc.content.placedTables = [⟨[0], twin⟩, ⟨[1], twin⟩] := rfl
  have hfirst : doc.content.IsFirstTable [0] := (Node.isFirstTable_iff hplaced).2 rfl
  have hletter : ∃ c ∈ (Node.text "a").textContent.toList, Text.isBlank c = false :=
    ⟨'a', by decide +kernel, by decide⟩
  have hreported := (write_reports_stray_text.2 .comma doc .standard).2 outcome hwritten
  exact ⟨hwritten, hfirst, hreported.2
    ⟨[0], hfirst, [1, 0, 0, 0], .text "a", rfl, by decide, .inl rfl, hletter⟩⟩

end Delimited

end Interchange
