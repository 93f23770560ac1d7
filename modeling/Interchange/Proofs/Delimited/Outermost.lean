import Interchange.Delimited.Tables
import Interchange.Proofs.Document.Places

/-!
# The outermost tables of a tree

A search that does not look into tables finds those that have no table above them, in document
order. A search that passes over the first of them finds text exactly where some node that holds
text is neither that table nor below it.
-/
namespace Interchange

namespace Node

variable {node : Node} {place : List Nat}

/-- At the place is a table, and above it there is none. -/
structure IsOutermostTable (root : Node) (place : List Nat) : Prop where
  table : ∃ node, root.at? place = some node ∧ node.kind = .table
  alone : ∀ above, above <+: place → above ≠ place →
    ∀ node, root.at? above = some node → node.kind ≠ .table

lemma isOutermostTable_nil : node.IsOutermostTable [] ↔ node.kind = .table := by
  constructor
  · rintro ⟨⟨_, hnode, hkind⟩, -⟩
    rwa [← Option.some.inj hnode] at hkind
  · intro hkind
    exact ⟨⟨node, rfl, hkind⟩, fun above habove hne => absurd (List.prefix_nil.1 habove) hne⟩

lemma not_isOutermostTable_cons (h : node.kind = .table) (i : Nat) :
    ¬node.IsOutermostTable (i :: place) := fun htable =>
  htable.alone [] (List.nil_prefix) (by simp) node rfl h

lemma isOutermostTable_cons (h : node.kind ≠ .table) {i : Nat} :
    node.IsOutermostTable (i :: place) ↔
      ∃ child, node.children[i]? = some child ∧ child.IsOutermostTable place := by
  constructor
  · rintro ⟨⟨table, htable, hkind⟩, halone⟩
    obtain ⟨child, hchild, htable⟩ := at?_cons_eq_some.1 htable
    refine ⟨child, hchild, ⟨table, htable, hkind⟩, fun above habove hne part hpart => ?_⟩
    exact halone (i :: above) ((List.prefix_cons_inj i).2 habove) (by simpa using hne) part
      (at?_cons_eq_some.2 ⟨child, hchild, hpart⟩)
  · rintro ⟨child, hchild, ⟨table, htable, hkind⟩, halone⟩
    refine ⟨⟨table, at?_cons_eq_some.2 ⟨child, hchild, htable⟩, hkind⟩,
      fun above habove hne part hpart => ?_⟩
    rcases List.prefix_cons_iff.1 habove with rfl | ⟨rest, rfl, hrest⟩
    · rwa [← Option.some.inj hpart]
    · obtain ⟨other, hother, hpart⟩ := at?_cons_eq_some.1 hpart
      obtain rfl := Option.some.inj (hchild.symm.trans hother)
      exact halone rest hrest (by simpa using hne) part hpart

end Node

namespace Placed

variable {table whole part top : Placed} {stack tables : List Placed}

/-- A table within a node, with no other one between them. -/
def IsTableIn (table whole : Placed) : Prop :=
  ∃ place, table.place = whole.place ++ place ∧ whole.node.at? place = some table.node ∧
    whole.node.IsOutermostTable place

lemma IsTableIn.liesIn (h : table.IsTableIn whole) : table.LiesIn whole := by
  obtain ⟨place, hplace, hnode, -⟩ := h
  exact ⟨place, hplace, hnode⟩

lemma isTableIn_root {root : Node} : table.IsTableIn (.root root) ↔
    root.at? table.place = some table.node ∧ root.IsOutermostTable table.place := by
  simp [IsTableIn, Placed.root]

lemma isTableIn_of_table (h : whole.node.kind = .table) : table.IsTableIn whole ↔ table = whole := by
  constructor
  · rintro ⟨place, hplace, hnode, htable⟩
    cases place with
    | nil =>
      cases table
      cases whole
      simp_all
    | cons i place => exact absurd htable (Node.not_isOutermostTable_cons h i)
  · rintro rfl
    exact ⟨[], by simp, rfl, Node.isOutermostTable_nil.2 h⟩

lemma isTableIn_of_other (h : whole.node.kind ≠ .table) :
    table.IsTableIn whole ↔ ∃ child ∈ whole.children, table.IsTableIn child := by
  constructor
  · rintro ⟨place, hplace, hnode, htable⟩
    cases place with
    | nil => exact absurd (Node.isOutermostTable_nil.1 htable) h
    | cons i place =>
      obtain ⟨child, hchild, htable⟩ := (Node.isOutermostTable_cons h).1 htable
      obtain ⟨other, hother, hnode⟩ := Node.at?_cons_eq_some.1 hnode
      obtain rfl := Option.some.inj (hchild.symm.trans hother)
      exact ⟨⟨whole.place ++ [i], child⟩, mem_children.2 ⟨i, rfl, hchild⟩, place,
        by simp [hplace], hnode, htable⟩
  · rintro ⟨child, hmem, place, hplace, hnode, htable⟩
    obtain ⟨i, hi, hchild⟩ := mem_children.1 hmem
    exact ⟨i :: place, by simp [hplace, hi], Node.at?_cons_eq_some.2 ⟨_, hchild, hnode⟩,
      (Node.isOutermostTable_cons h).2 ⟨_, hchild, htable⟩⟩

/-- What a search finds are the outermost tables of the nodes on its stack. -/
theorem mem_tablesOn : table ∈ tablesOn stack ↔ ∃ top ∈ stack, table.IsTableIn top := by
  induction stack using tablesOn.induct with
  | case1 => simp [tablesOn]
  | case2 top stack hkind ih =>
    rw [tablesOn, if_pos hkind, List.mem_cons, ih, List.exists_mem_cons_iff,
      isTableIn_of_table hkind]
  | case3 top stack hkind ih =>
    rw [tablesOn, if_neg hkind, ih, spread_eq, List.exists_mem_cons_iff, isTableIn_of_other hkind]
    simp only [List.mem_append, or_and_right, exists_or]

/-- From nodes in order come tables in document order. -/
theorem pairwise_tablesOn (h : stack.Pairwise Precedes) :
    (tablesOn stack).Pairwise (·.place < ·.place) := by
  induction stack using tablesOn.induct with
  | case1 => simp [tablesOn]
  | case2 top stack hkind ih =>
    obtain ⟨htop, hstack⟩ := List.pairwise_cons.1 h
    rw [tablesOn, if_pos hkind, List.pairwise_cons]
    refine ⟨fun other hother => ?_, ih hstack⟩
    obtain ⟨below, hbelow, htable⟩ := mem_tablesOn.1 hother
    exact (htop below hbelow).lt (liesIn_refl top) htable.liesIn
  | case3 top stack hkind ih =>
    rw [tablesOn, if_neg hkind]
    exact ih (pairwise_spread h)

lemma tablesOn_append (stack others : List Placed) :
    tablesOn (stack ++ others) = tablesOn stack ++ tablesOn others := by
  induction stack using tablesOn.induct with
  | case1 => rw [List.nil_append, tablesOn, List.nil_append]
  | case2 top stack hkind ih =>
    rw [List.cons_append, tablesOn, if_pos hkind, tablesOn, if_pos hkind, ih, List.cons_append]
  | case3 top stack hkind ih =>
    rw [spread_eq, List.append_assoc] at ih
    rw [List.cons_append, tablesOn, if_neg hkind, tablesOn, if_neg hkind, spread_eq, ih, spread_eq]

/-- Which nodes are found does not depend on where they are. -/
lemma map_node_tablesOn_congr {others : List Placed} (h : stack.map node = others.map node) :
    (tablesOn stack).map node = (tablesOn others).map node := by
  induction stack using tablesOn.induct generalizing others with
  | case1 =>
    obtain rfl : others = [] := by simpa using h.symm
    rfl
  | case2 top stack hkind ih =>
    obtain ⟨other, others, rfl, hnode, hrest⟩ := List.map_eq_cons_iff.1 h.symm
    rw [tablesOn, if_pos hkind, tablesOn, if_pos (hnode ▸ hkind), List.map_cons, List.map_cons,
      hnode, ih hrest.symm]
  | case3 top stack hkind ih =>
    obtain ⟨other, others, rfl, hnode, hrest⟩ := List.map_eq_cons_iff.1 h.symm
    rw [tablesOn, if_neg hkind, tablesOn, if_neg (hnode ▸ hkind)]
    apply ih
    rw [map_node_spread, map_node_spread, hnode, hrest]

/-- A node that holds text is met unless it lies in a table that is passed over. Such a table may lie
anywhere within the node on the stack; when its own turn comes, nothing below it is looked at. -/
theorem findsText_iff : findsText tables stack = true ↔ ∃ top ∈ stack, ∃ part : Placed,
    part.LiesIn top ∧ part.node.holdsText = true ∧
      ∀ table ∈ tables, top.place <+: table.place → ¬table.place <+: part.place := by
  induction stack using findsText.induct tables with
  | case1 => simp [findsText]
  | case2 top stack hskip ih =>
    obtain ⟨table, htable, hplace⟩ := List.any_eq_true.1 hskip
    have hplace : table.place = top.place := by simpa using hplace
    rw [findsText, if_pos hskip, ih, List.exists_mem_cons_iff]
    refine (or_iff_right ?_).symm
    rintro ⟨part, hpart, -, hclear⟩
    exact hclear table htable (hplace ▸ List.prefix_rfl) (hplace ▸ hpart.prefix)
  | case3 top stack hskip hholds =>
    rw [findsText, if_neg hskip, if_pos hholds]
    refine iff_of_true rfl ⟨top, List.mem_cons_self, top, liesIn_refl top, hholds, ?_⟩
    intro table htable habove hbelow
    have hsame := habove.eq_of_length_le hbelow.length_le
    exact hskip (List.any_eq_true.2 ⟨table, htable, by simp [hsame]⟩)
  | case4 top stack hskip hholds ih =>
    -- Below the top node the same tables are passed over as below the child on the way down.
    have hclear {child part : Placed} (hchild : child ∈ top.children) (hpart : part.LiesIn child) :
        (∀ table ∈ tables, child.place <+: table.place → ¬table.place <+: part.place) ↔
          ∀ table ∈ tables, top.place <+: table.place → ¬table.place <+: part.place := by
      obtain ⟨i, hi, -⟩ := mem_children.1 hchild
      refine forall₂_congr fun table htable => ⟨fun h habove hbelow => ?_, fun h habove => ?_⟩
      · have hne : top.place ≠ table.place := fun hsame =>
          hskip (List.any_eq_true.2 ⟨table, htable, by simp [hsame]⟩)
        have hlength := habove.length_le
        have hlonger : top.place.length ≠ table.place.length := fun hsame =>
          hne (habove.eq_of_length hsame)
        refine h (List.prefix_of_prefix_length_le hpart.prefix hbelow ?_) hbelow
        rw [hi, List.length_append, List.length_singleton]
        omega
      · exact h ((List.prefix_append _ _).trans (hi ▸ habove))
    rw [findsText, if_neg hskip, if_neg hholds, ih, List.exists_mem_cons_iff]
    simp only [mem_heap, or_and_right, exists_or]
    refine or_congr_left ?_
    constructor
    · rintro ⟨child, hchild, part, hpart, htext, h⟩
      exact ⟨part, liesIn_iff.2 (.inr ⟨child, hchild, hpart⟩), htext, (hclear hchild hpart).1 h⟩
    · rintro ⟨part, hpart, htext, h⟩
      rcases liesIn_iff.1 hpart with rfl | ⟨child, hchild, hpart⟩
      · exact absurd htext hholds
      · exact ⟨child, hchild, part, hpart, htext, (hclear hchild hpart).2 h⟩

end Placed

namespace Node

variable {root : Node}

lemma mem_placedTables {table : Placed} : table ∈ root.placedTables ↔
    root.at? table.place = some table.node ∧ root.IsOutermostTable table.place := by
  rw [placedTables, Placed.mem_tablesOn, List.exists_mem_cons_iff, Placed.isTableIn_root]
  simp

lemma exists_placedTables_iff {place : List Nat} :
    (∃ table ∈ root.placedTables, table.place = place) ↔ root.IsOutermostTable place := by
  constructor
  · rintro ⟨table, htable, rfl⟩
    exact (mem_placedTables.1 htable).2
  · intro hplace
    obtain ⟨node, hnode, -⟩ := hplace.table
    exact ⟨⟨place, node⟩, mem_placedTables.2 ⟨hnode, hplace⟩, rfl⟩

lemma pairwise_placedTables (root : Node) :
    root.placedTables.Pairwise (·.place < ·.place) :=
  Placed.pairwise_tablesOn (List.pairwise_singleton _ _)

/-- The tables of a tree are those that have no table above them. -/
theorem lists_tables (root : Node) : root.Lists root.IsOutermostTable root.tables := by
  refine Placed.lists_map (pairwise_placedTables root) ?_ fun _ => exists_placedTables_iff
  intro table htable
  exact Placed.liesIn_root.2 (mem_placedTables.1 htable).1

lemma kind_of_mem_tables {table : Node} (h : table ∈ root.tables) : table.kind = .table := by
  obtain ⟨placed, hplaced, rfl⟩ := List.mem_map.1 h
  obtain ⟨hnode, htable⟩ := mem_placedTables.1 hplaced
  obtain ⟨node, hsame, hkind⟩ := htable.table
  rwa [Option.some.inj (hnode.symm.trans hsame)]

/-- The tables of a node that is none are those of its children, from the first to the last. -/
theorem tables_eq (node : Node) :
    node.tables = if node.kind = .table then [node] else node.children.flatMap tables := by
  have hstack (stack : List Placed) :
      (Placed.tablesOn stack).map Placed.node = (stack.map Placed.node).flatMap tables := by
    induction stack with
    | nil => simp [Placed.tablesOn]
    | cons top stack ih =>
      have htop : (Placed.tablesOn [top]).map Placed.node = top.node.tables :=
        Placed.map_node_tablesOn_congr rfl
      rw [← List.singleton_append, Placed.tablesOn_append, List.map_append, ih, htop,
        List.singleton_append, List.map_cons, List.flatMap_cons]
  by_cases hkind : node.kind = .table
  · have hroot : (Placed.root node).node.kind = .table := hkind
    rw [tables, placedTables, Placed.tablesOn, if_pos hroot, if_pos hkind, Placed.tablesOn]
    rfl
  · have hroot : (Placed.root node).node.kind ≠ .table := hkind
    rw [tables, placedTables, Placed.tablesOn, if_neg hroot, if_neg hkind, hstack,
      Placed.map_node_spread, spread_eq, List.map_nil, List.append_nil]
    rfl

/-- Text is found outside the first table where a node that holds text is not below its place. -/
theorem hasStrayText_iff {first : Placed} {others : List Placed}
    (h : root.placedTables = first :: others) : root.hasStrayText = true ↔
      ∃ place node, root.at? place = some node ∧ node.holdsText = true ∧ ¬first.place <+: place := by
  rw [hasStrayText, h, Placed.findsText_iff]
  simp only [List.take_succ_cons, List.take_zero, List.mem_singleton, exists_eq_left, forall_eq,
    Placed.liesIn_root]
  constructor
  · rintro ⟨part, hpart, htext, hclear⟩
    exact ⟨part.place, part.node, hpart, htext, hclear List.nil_prefix⟩
  · rintro ⟨place, node, hnode, htext, hclear⟩
    exact ⟨⟨place, node⟩, hnode, htext, fun _ => hclear⟩

end Node

end Interchange
