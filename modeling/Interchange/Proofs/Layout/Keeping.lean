import Interchange.Layout.Render
import Interchange.Proofs.Text.Letters

/-!
# Shapes keep their text

Every shape of the layout keeps the letters of what it is made of: it splits, trims, pads and joins
at blanks only.
-/
namespace Interchange.Layout

open Text (Keeps letters)

/-- All characters of what a node has become. -/
def Rendered.text : Rendered → Chars
  | .piece text => text
  | .blocks bs => bs.flatten

@[simp] lemma flatten_nonempty (cs : Chars) : (nonempty cs).flatten = cs := by
  cases cs <;> simp [nonempty]

lemma keeps_joinWith (separator : String) (pieces : List Chars) :
    Keeps pieces.flatten (joinWith separator pieces) :=
  .intercalate separator.toList pieces

@[simp] lemma flatten_toBlocks (part : Rendered) : part.toBlocks.flatten = part.text := by
  cases part with
  | piece text => exact flatten_nonempty text
  | blocks bs => rfl

lemma keeps_toPiece (part : Rendered) : Keeps part.text part.toPiece := by
  cases part with
  | piece text => exact .refl text
  | blocks bs => exact keeps_joinWith " " bs

lemma keeps_inlineText (parts : List Rendered) :
    Keeps (parts.flatMap Rendered.text) (inlineText parts) :=
  .flatMap fun part _ => keeps_toPiece part

lemma flatten_flowFrom (run : Chars) (parts : List Rendered) :
    (flowFrom run parts).flatten = run ++ parts.flatMap Rendered.text := by
  induction parts generalizing run with
  | nil => simp [flowFrom]
  | cons part parts ih =>
    cases part with
    | piece text => rw [flowFrom, ih, List.flatMap_cons, Rendered.text, List.append_assoc]
    | blocks bs =>
      rw [flowFrom, List.flatten_append, List.flatten_append, ih, flatten_nonempty,
        List.flatten_filter_not_isEmpty, List.flatMap_cons, Rendered.text, List.nil_append,
        List.append_assoc]

lemma flatten_flow (parts : List Rendered) :
    (flow parts).flatten = parts.flatMap Rendered.text :=
  flatten_flowFrom [] parts

lemma keeps_unlines (ls : List Chars) : Keeps ls.flatten (unlines ls) := keeps_joinWith "\n" ls

lemma keeps_lines (cs : Chars) : Keeps cs (lines cs).flatten := by
  have hjoined : List.intercalate ['\n'] (lines cs) = cs := Text.intercalate_splitAt '\n' cs
  have hbreak : letters ['\n'] = [] := by decide
  refine .of_letters_eq ?_
  rw [← Text.letters_intercalate hbreak, hjoined]

lemma keeps_behind (margin line : Chars) : Keeps line (behind margin line) := by
  rw [behind]
  split
  · exact .refl line
  · exact (Keeps.refl line).behind margin

/-- A text whose lines are kept one by one is kept. -/
lemma keeps_mapLines {shape : Chars → Chars} (h : ∀ line, Keeps line (shape line)) (cs : Chars) :
    Keeps cs (unlines ((lines cs).map shape)) :=
  ((keeps_lines cs).trans (.flatten_map fun line _ => h line)).trans (keeps_unlines _)

lemma keeps_indent (body : Chars) : Keeps body (indent body) :=
  keeps_mapLines (keeps_behind _) body

lemma keeps_stripEnd (cs : Chars) : Keeps cs (Text.stripEnd cs) :=
  .of_letters_eq (Text.letters_stripEnd cs).symm

lemma keeps_quote (body : Chars) : Keeps body (quote body) :=
  keeps_mapLines (fun line => ((Keeps.refl line).behind _).trans (keeps_stripEnd _)) body

/-- A block made of a text, unless there is none. -/
lemma keeps_unlessEmpty {shape : Chars → Chars} (h : ∀ cs, Keeps cs (shape cs)) (cs : Chars) :
    Keeps cs (if cs.isEmpty then [] else [shape cs]).flatten := by
  split
  · next hempty => rw [List.isEmpty_iff.1 hempty]; exact .nil _
  · simpa using h cs

lemma keeps_itemLines (marker body : Chars) : Keeps body (itemLines marker body).flatten := by
  refine (keeps_lines body).trans ?_
  unfold itemLines
  cases lines body with
  | nil => exact .nil _
  | cons first rest =>
    rw [List.flatten_cons, List.flatten_cons]
    exact ((Keeps.refl first).behind marker).append (.flatten_map fun line _ => keeps_behind _ line)

lemma keeps_listLines (ordered : Bool) (number : ℤ) (items : List Chars) :
    Keeps items.flatten (listLines ordered number items).flatten := by
  induction items generalizing number with
  | nil => exact .nil _
  | cons item items ih =>
    rw [listLines, List.flatten_cons, List.flatten_append]
    exact (keeps_itemLines _ item).append (ih (number + 1))

lemma keeps_listBlock (props : Bag) (parts : List Rendered) :
    Keeps (parts.flatMap Rendered.text) (listBlock props parts).flatten := by
  have hitems : Keeps (parts.flatMap Rendered.text)
      (parts.map fun part => unlines (flow [part])).flatten := by
    rw [← List.flatMap_def]
    refine .flatMap fun part _ => ?_
    have hpart : (flow [part]).flatten = part.text := by simp [flatten_flow]
    exact hpart ▸ keeps_unlines _
  have hlines := hitems.trans (keeps_listLines (Bag.isOn props Key.ordered)
    ((Bag.int? props Key.start).getD 1) _)
  refine hlines.trans ?_
  unfold listBlock
  dsimp only
  split
  · next hempty => rw [List.isEmpty_iff.1 hempty]; exact .nil _
  · exact List.flatten_singleton ▸ keeps_unlines _

lemma keeps_flatten (cs : Chars) : Keeps cs (flatten cs) := by
  induction cs with
  | nil => exact .nil _
  | cons c cs ih =>
    by_cases hc : c = '\n'
    · subst hc
      have hblank : letters ['\n'] = [] := by decide
      have hone : Keeps ['\n'] [' '] := by rw [Keeps, hblank]; exact List.nil_sublist _
      simpa [flatten] using hone.append ih
    · simpa [flatten, hc] using (Keeps.refl [c]).append ih

lemma keeps_cellText (parts : List Rendered) :
    Keeps (parts.flatMap Rendered.text) (cellText parts) :=
  flatten_flow parts ▸ (keeps_joinWith " " (flow parts)).trans (keeps_flatten _)

lemma keeps_padRight (width : ℕ) (cs : Chars) : Keeps cs (padRight width cs) :=
  (Keeps.refl cs).before _

/-- No cell is lost when there are as many columns as cells. -/
lemma keeps_padded {widths : List ℕ} {row : List Chars} (h : row.length ≤ widths.length) :
    Keeps row.flatten
      (widths.mapIdx fun column width => padRight width (row.getD column [])).flatten := by
  induction row generalizing widths with
  | nil => exact .nil _
  | cons cell row ih =>
    cases widths with
    | nil => simp at h
    | cons width widths =>
      rw [List.mapIdx_cons, List.flatten_cons, List.flatten_cons]
      exact (keeps_padRight width cell).append (ih (by simpa using h))

lemma keeps_tableLine (separator : Chars) {widths : List ℕ} {row : List Chars}
    (h : row.length ≤ widths.length) : Keeps row.flatten (tableLine separator widths row) :=
  ((keeps_padded h).trans (.intercalate separator _)).trans (keeps_stripEnd _)

lemma le_foldl_max {n start : ℕ} {ns : List ℕ} (h : n ≤ start ∨ n ∈ ns) :
    n ≤ ns.foldl max start := by
  induction ns generalizing start with
  | nil => simpa using h
  | cons m ns ih =>
    rw [List.foldl_cons]
    refine ih ?_
    rcases h with h | h
    · exact .inl (h.trans (le_max_left start m))
    · rcases List.mem_cons.1 h with rfl | h
      · exact .inl (le_max_right start n)
      · exact .inr h

lemma keeps_tableLines (separator : Chars) (rows : List (List Chars)) :
    Keeps rows.flatten.flatten (tableLines separator rows).flatten := by
  have hwidths : (columnWidths rows).length = columnCount rows := by simp [columnWidths]
  have hrow : ∀ row ∈ rows, Keeps row.flatten (tableLine separator (columnWidths rows) row) := by
    intro row hmem
    refine keeps_tableLine separator ?_
    rw [hwidths]
    exact le_foldl_max (.inr (List.mem_map.2 ⟨row, hmem, rfl⟩))
  rw [List.flatten_flatten, tableLines, ← List.flatMap_def, ← List.flatMap_def]
  exact .flatMap hrow

lemma keeps_tableBlock (separator : Chars) (rows : List (List (List Rendered))) :
    Keeps (rows.flatMap fun row => row.flatMap fun parts => parts.flatMap Rendered.text)
      (tableBlock separator rows).flatten := by
  have hcells : Keeps (rows.flatMap fun row => row.flatMap fun parts => parts.flatMap Rendered.text)
      (rows.map (·.map cellText)).flatten.flatten := by
    rw [List.flatten_flatten, List.map_map, ← List.flatMap_def]
    refine .flatMap fun row _ => ?_
    rw [Function.comp_apply, ← List.flatMap_def]
    exact .flatMap fun parts _ => keeps_cellText parts
  refine (hcells.trans (keeps_tableLines separator _)).trans ?_
  unfold tableBlock
  split
  · next hempty => rw [List.isEmpty_iff.1 hempty]; exact .nil _
  · simpa using keeps_unlines _

lemma keeps_linkText (props : Bag) (label : Chars) : Keeps label (linkText props label) := by
  unfold linkText
  dsimp only
  split
  · exact .refl label
  · split
    · next hempty => rw [List.isEmpty_iff.1 hempty]; exact .nil _
    · rw [List.append_assoc, List.append_assoc]
      exact (Keeps.refl label).before _

lemma keeps_footnoteText (props : Bag) (body : List Chars) :
    Keeps body.flatten (footnoteText props body) := by
  have hbody := ((keeps_joinWith " " body).behind [' ']).behind (footnoteMark props)
  exact hbody.trans (keeps_stripEnd _)

lemma keeps_wrap (setting : Setting) (role : Role) (kind : Kind) (cs : Chars) :
    Keeps cs (setting.wrap role kind cs) := by
  unfold Setting.wrap
  split
  · unfold Setting.styled
    split
    · exact .refl cs
    · exact ((Keeps.refl cs).behind _).before _
  · exact .refl cs

end Interchange.Layout
