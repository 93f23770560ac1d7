import Interchange.Proofs.Failure
import Interchange.Proofs.Json.Texts
import Interchange.Proofs.Number.Digits
import Interchange.Proofs.Text.Words

/-!
# Reading what was written as JSON

In every style a value is read back as it was written, if it has no floating point number, no whole
number with more digits than are read, no object with a name twice, and no text in which a half of a
pair is lost. What follows a value has to begin with something that does not go on with a number.
-/
namespace Interchange.Json

variable {τ : Type}

mutual

/-- Values without floating point numbers, whose whole numbers are not too long to be read, and whose
objects have each name once. -/
def IsExact : Json τ → Prop
  | .null => True
  | .bool _ => True
  | .int n => (Number.digits n.natAbs).length ≤ Number.digitLimit
  | .float _ => False
  | .text _ => True
  | .list items => AreExact items
  | .object members => (members.map Prod.fst).Nodup ∧ AreExactMembers members

def AreExact : List (Json τ) → Prop
  | [] => True
  | item :: items => IsExact item ∧ AreExact items

def AreExactMembers : List (τ × Json τ) → Prop
  | [] => True
  | (_, value) :: members => IsExact value ∧ AreExactMembers members

end

lemma areExactMembers_iff {members : List (τ × Json τ)} :
    AreExactMembers members ↔ ∀ m ∈ members, IsExact m.2 := by
  induction members with
  | nil => simp [AreExactMembers]
  | cons m members ih => rw [AreExactMembers, ih, List.forall_mem_cons]

mutual

/-- The texts and the names in a value, at any depth. -/
def texts : Json τ → List τ
  | .text s => [s]
  | .list items => textsOfItems items
  | .object members => textsOfMembers members
  | _ => []

def textsOfItems : List (Json τ) → List τ
  | [] => []
  | item :: items => texts item ++ textsOfItems items

def textsOfMembers : List (τ × Json τ) → List τ
  | [] => []
  | (name, value) :: members => name :: (texts value ++ textsOfMembers members)

end

lemma forall_mem_textsOfItems_iff {P : τ → Prop} {items : List (Json τ)} :
    (∀ text ∈ textsOfItems items, P text) ↔ ∀ item ∈ items, ∀ text ∈ item.texts, P text := by
  induction items with
  | nil => exact iff_of_true (List.forall_mem_nil _) (List.forall_mem_nil _)
  | cons item items ih =>
    rw [textsOfItems, List.forall_mem_append, ih, List.forall_mem_cons]

lemma forall_mem_textsOfMembers_iff {P : τ → Prop} {members : List (τ × Json τ)} :
    (∀ text ∈ textsOfMembers members, P text) ↔
      ∀ m ∈ members, P m.1 ∧ ∀ text ∈ m.2.texts, P text := by
  induction members with
  | nil => exact iff_of_true (List.forall_mem_nil _) (List.forall_mem_nil _)
  | cons m members ih =>
    rw [textsOfMembers, List.forall_mem_cons, List.forall_mem_append, ih, List.forall_mem_cons,
      and_assoc]

/-- All texts of a value are read back as they are written. -/
def HasKeptTexts (asciiOnly : Bool) (texts : List Wide) : Prop :=
  ∀ text ∈ texts, IsKept asciiOnly text.points

lemma skipSpace_of_isSpace {blanks cs : List Char} (h : ∀ c ∈ blanks, isSpace c) :
    skipSpace (blanks ++ cs) = skipSpace cs := List.dropWhile_append_of_pos h

lemma skipSpace_cons {c : Char} {cs : List Char} (h : isSpace c = false) :
    skipSpace (c :: cs) = c :: cs := List.dropWhile_cons_of_neg (by simp [h])

/-- A style that is indented, if at all, by blanks. -/
def Style.IsBlank (style : Style) : Prop :=
  ∀ unit, style.indent = some unit → ∀ c ∈ unit, isSpace c

namespace Style

/-- What stands between two items at a level. -/
def between (style : Style) (level : ℕ) : List Char :=
  match style.indent with
  | none => [',', ' ']
  | some _ => ',' :: style.newLine level

lemma enclose_of_ne_nil (style : Style) (level : ℕ) (left right : Char)
    {pieces : List (List Char)} (h : pieces ≠ []) :
    style.enclose id level left right pieces = left :: (style.newLine (level + 1) ++
      (List.intercalate (style.between (level + 1)) pieces ++
        (style.newLine level ++ [right]))) := by
  have hpieces : ¬pieces.isEmpty = true := by simpa using h
  rw [enclose, if_neg hpieces, between]
  cases style.indent <;> simp

lemma map_enclose {α β : Type} (letter : Char → α) (f : α → β) (style : Style) (level : ℕ)
    (left right : Char) (pieces : List (List α)) :
    (style.enclose letter level left right pieces).map f =
      style.enclose (f ∘ letter) level left right (pieces.map (List.map f)) := by
  unfold enclose
  cases pieces with
  | nil => rfl
  | cons piece pieces =>
    have hjoined (separator : List α) : (List.intercalate separator (piece :: pieces)).map f =
        List.intercalate (separator.map f) ((piece :: pieces).map (List.map f)) :=
      Text.map_intercalate List.map_nil (fun _ _ => List.map_append) _ _
    cases style.indent <;> simp [hjoined]

variable {style : Style} {level : ℕ}

namespace IsBlank

lemma newLine (h : style.IsBlank) (level : ℕ) : ∀ c ∈ style.newLine level, isSpace c := by
  rw [Style.newLine]
  split
  · exact List.forall_mem_nil _
  · next unit hunit =>
    refine List.forall_mem_cons.2 ⟨rfl, fun c hc => ?_⟩
    obtain ⟨_, hrepeated, hc⟩ := List.mem_flatten.1 hc
    rw [List.eq_of_mem_replicate hrepeated] at hc
    exact h unit hunit c hc

/-- A comma and blanks. -/
lemma exists_between (h : style.IsBlank) (level : ℕ) :
    ∃ blanks, style.between level = ',' :: blanks ∧ ∀ c ∈ blanks, isSpace c := by
  have hline := h.newLine level
  rw [between]
  split
  · exact ⟨[' '], rfl, by simp [isSpace]⟩
  · exact ⟨_, rfl, hline⟩

end IsBlank

end Style

/-- Does not go on with a number. -/
def EndsNumber (rest : List Char) : Prop :=
  ∀ c ∈ rest.head?, Number.isDigit c = false ∧ c ≠ '.' ∧ c ≠ 'e' ∧ c ≠ 'E'

lemma endsNumber_nil : EndsNumber [] := nofun

lemma endsNumber_cons {c : Char} {rest : List Char}
    (h : Number.isDigit c = false ∧ c ≠ '.' ∧ c ≠ 'e' ∧ c ≠ 'E') : EndsNumber (c :: rest) := by
  rintro d hd
  cases hd
  exact h

lemma endsNumber_newLine (style : Style) (level : ℕ) {c : Char} {rest : List Char}
    (h : Number.isDigit c = false ∧ c ≠ '.' ∧ c ≠ 'e' ∧ c ≠ 'E') :
    EndsNumber (style.newLine level ++ c :: rest) := by
  rw [Style.newLine]
  split
  · exact endsNumber_cons h
  · exact endsNumber_cons (by decide)

variable {rest : List Char}

lemma takeWhile_digits (n : ℕ) (h : EndsNumber rest) :
    (Number.digits n ++ rest).takeWhile Number.isDigit = Number.digits n ∧
      (Number.digits n ++ rest).dropWhile Number.isDigit = rest := by
  have hdigits : ∀ c ∈ Number.digits n, Number.isDigit c = true := fun c =>
    Number.isDigit_of_mem_digits
  rw [List.takeWhile_append_of_pos hdigits, List.dropWhile_append_of_pos hdigits]
  cases rest with
  | nil => simp
  | cons c rest =>
    have hc := (h c rfl).1
    simp [hc]

lemma wholeDigits_digits (n : ℕ) (h : EndsNumber rest) :
    wholeDigits (Number.digits n ++ rest) = (Number.digits n, rest) := by
  by_cases hzero : n = 0
  · have hdigits : Number.digits 0 = ['0'] := by
      rw [Number.digits]
      rfl
    rw [hzero, hdigits]
    rfl
  · obtain ⟨htake, hdrop⟩ := takeWhile_digits n h
    rw [wholeDigits.eq_def]
    split
    · next others heq =>
      have hhead : (Number.digits n).head? = some '0' := by
        rw [← List.head?_append_of_ne_nil _ (Number.digits_ne_nil n), heq, List.head?_cons]
      exact absurd hhead (Number.head?_digits_ne hzero)
    · rw [htake, hdrop]

lemma fractionDigits_of_endsNumber (h : EndsNumber rest) : fractionDigits rest = ([], rest) := by
  rw [fractionDigits.eq_def]
  split
  · next d others => exact absurd rfl (h '.' rfl).2.1
  · rfl

lemma powerDigits_of_endsNumber (h : EndsNumber rest) : powerDigits rest = (none, rest) := by
  cases rest with
  | nil => rfl
  | cons c rest =>
    obtain ⟨-, -, hsmall, hcapital⟩ := h c rfl
    rw [powerDigits.eq_def]
    dsimp only
    rw [if_neg (by simp [hsmall, hcapital])]

lemma parseNumber_digits (start : List Char) (negative : Bool) {n : ℕ}
    (hn : (Number.digits n).length ≤ Number.digitLimit) (h : EndsNumber rest) :
    parseNumber start negative (Number.digits n ++ rest) =
      .ok (.int (Number.signed negative n), rest) := by
  rw [parseNumber, wholeDigits_digits n h]
  split
  · next heq => exact absurd (Prod.mk.inj heq).1 (Number.digits_ne_nil n)
  · next whole others heq =>
    obtain ⟨rfl, rfl⟩ := Prod.mk.inj heq
    simp only [fractionDigits_of_endsNumber h, powerDigits_of_endsNumber h, List.isEmpty_nil,
      Option.isNone_none, Bool.and_self, if_true]
    rw [if_neg (by omega), Number.ofDigits_digits]

/-- A value that begins with a digit is a number, and so is one that begins with a sign and a digit. -/
lemma parseValue_digitChar (fuel : ℕ) (cs : List Char) {d : ℕ} (h : d < 10) :
    parseValue (fuel + 1) (Number.digitChar d :: cs) =
        parseNumber (Number.digitChar d :: cs) false (Number.digitChar d :: cs) ∧
      parseValue (fuel + 1) ('-' :: Number.digitChar d :: cs) =
        parseNumber ('-' :: Number.digitChar d :: cs) true (Number.digitChar d :: cs) := by
  interval_cases d <;> exact ⟨rfl, rfl⟩

lemma parseValue_intDigits (fuel : ℕ) {n : ℤ}
    (hn : (Number.digits n.natAbs).length ≤ Number.digitLimit) (h : EndsNumber rest) :
    parseValue (fuel + 1) (Number.intDigits n ++ rest) = .ok (.int n, rest) := by
  obtain ⟨d, hd, ds, hdigits⟩ := Number.exists_digits_eq_cons n.natAbs
  have hnumber (start : List Char) (negative : Bool) :=
    parseNumber_digits start negative hn h
  obtain ⟨hplain, hsigned⟩ := parseValue_digitChar fuel (ds ++ rest) hd
  rw [hdigits, List.cons_append] at hnumber
  rw [Number.intDigits, hdigits]
  split
  · rw [List.cons_append, List.cons_append, hsigned, hnumber, Number.signed, if_pos rfl]
    congr
    omega
  · rw [List.cons_append, hplain, hnumber, Number.signed, if_neg Bool.false_ne_true]
    congr
    omega

/-- What is written, where no half is written for itself. -/
def spelledText (asciiOnly : Bool) (text : Wide) : List Char :=
  (printText asciiOnly text).map Point.whole

lemma spelledText_eq (asciiOnly : Bool) (text : Wide) :
    spelledText asciiOnly text = '"' :: (spelled asciiOnly text.points ++ ['"']) := by
  rw [spelledText, printText, List.cons_append, List.map_cons, List.map_append]
  rfl

def spelledValue (style : Style) (level : ℕ) (value : Json Wide) : List Char :=
  (printValue style level value).map Point.whole

def spelledItems (style : Style) (level : ℕ) (items : List (Json Wide)) : List (List Char) :=
  (printItems style level items).map (List.map Point.whole)

def spelledMembers (style : Style) (level : ℕ) (members : List (Wide × Json Wide)) :
    List (List Char) := (printMembers style level members).map (List.map Point.whole)

lemma spelledValue_int (style : Style) (level : ℕ) (n : ℤ) :
    spelledValue style level (.int n) = Number.intDigits n := by
  rw [spelledValue, printValue, Wide.map_whole_char]

lemma spelledValue_list (style : Style) (level : ℕ) (items : List (Json Wide)) :
    spelledValue style level (.list items) =
      style.enclose id level '[' ']' (spelledItems style (level + 1) items) := by
  rw [spelledValue, printValue, Style.map_enclose]
  rfl

lemma spelledValue_object (style : Style) (level : ℕ) (members : List (Wide × Json Wide)) :
    spelledValue style level (.object members) =
      style.enclose id level '\x7b' '\x7d' (spelledMembers style (level + 1) members) := by
  rw [spelledValue, printValue, Style.map_enclose]
  rfl

lemma spelledItems_cons (style : Style) (level : ℕ) (item : Json Wide) (items : List (Json Wide)) :
    spelledItems style level (item :: items) =
      spelledValue style level item :: spelledItems style level items := by
  rw [spelledItems, printItems, List.map_cons]
  rfl

lemma spelledMembers_cons (style : Style) (level : ℕ) (name : Wide) (value : Json Wide)
    (members : List (Wide × Json Wide)) :
    spelledMembers style level ((name, value) :: members) =
      (spelledText style.asciiOnly name ++ ':' :: ' ' :: spelledValue style level value) ::
        spelledMembers style level members := by
  rw [spelledMembers, printMembers, List.map_cons, List.map_append]
  rfl

lemma parseValue_spelledText (fuel : ℕ) {asciiOnly : Bool} {text : Wide}
    (h : IsKept asciiOnly text.points) (rest : List Char) :
    parseValue (fuel + 1) (spelledText asciiOnly text ++ rest) = .ok (.text text, rest) := by
  rw [spelledText_eq, List.cons_append, List.append_assoc, List.singleton_append, parseValue,
    parseText_spelled h]
  rfl

/-- A written value begins with a character that is no blank, closes no list and is no byte order
mark. -/
lemma exists_spelledValue_eq_cons (style : Style) (level : ℕ) {value : Json Wide} (h : IsExact value) :
    ∃ c cs, spelledValue style level value = c :: cs ∧ isSpace c = false ∧ c ≠ ']' ∧
      c.toNat ≠ 0xfeff := by
  have henclosed (left right : Char) (pieces : List (List Char)) :
      ∃ cs, style.enclose id level left right pieces = left :: cs := by
    rw [Style.enclose]
    split
    · exact ⟨_, rfl⟩
    · exact ⟨_, rfl⟩
  cases value with
  | null => exact ⟨_, _, rfl, by decide⟩
  | bool b =>
    cases b with
    | false => exact ⟨_, _, rfl, by decide⟩
    | true => exact ⟨_, _, rfl, by decide⟩
  | int n =>
    obtain ⟨d, hd, ds, hdigits⟩ := Number.exists_digits_eq_cons n.natAbs
    have hhead : ∀ d < 10, isSpace (Number.digitChar d) = false ∧ Number.digitChar d ≠ ']' ∧
        (Number.digitChar d).toNat ≠ 0xfeff := by decide
    rw [spelledValue_int, Number.intDigits, hdigits]
    split
    · exact ⟨_, _, rfl, by decide⟩
    · exact ⟨_, _, rfl, hhead d hd⟩
  | float x => exact h.elim
  | text s => exact ⟨_, _, rfl, by decide⟩
  | list items =>
    obtain ⟨cs, hcs⟩ := henclosed '[' ']' (spelledItems style (level + 1) items)
    exact ⟨_, _, (spelledValue_list style level items).trans hcs, by decide⟩
  | object members =>
    obtain ⟨cs, hcs⟩ := henclosed '\x7b' '\x7d' (spelledMembers style (level + 1) members)
    exact ⟨_, _, (spelledValue_object style level members).trans hcs, by decide⟩

lemma exists_intercalate_spelledItems (style : Style) (level : ℕ) {item : Json Wide}
    (items : List (Json Wide)) (h : IsExact item) : ∃ c cs, List.intercalate (style.between level)
      (spelledItems style level (item :: items)) = c :: cs ∧ isSpace c = false ∧ c ≠ ']' := by
  obtain ⟨c, cs, hcs, hc, hclose, -⟩ := exists_spelledValue_eq_cons style level h
  rw [spelledItems_cons, hcs]
  cases items with
  | nil => exact ⟨c, cs, List.intercalate_singleton, hc, hclose⟩
  | cons next items =>
    rw [spelledItems_cons, List.intercalate_cons_cons]
    exact ⟨c, _, rfl, hc, hclose⟩

lemma exists_intercalate_spelledMembers (style : Style) (level : ℕ) (member : Wide × Json Wide)
    (members : List (Wide × Json Wide)) : ∃ cs, List.intercalate (style.between level)
      (spelledMembers style level (member :: members)) = '"' :: cs := by
  obtain ⟨name, value⟩ := member
  rw [spelledMembers_cons, spelledText_eq]
  cases members with
  | nil => exact ⟨_, List.intercalate_singleton⟩
  | cons next members =>
    rw [spelledMembers_cons, List.intercalate_cons_cons]
    exact ⟨_, rfl⟩

lemma setMember_of_notMem {members : List (Wide × Json Wide)} {name : Wide} (value : Json Wide)
    (h : name ∉ members.map Prod.fst) :
    setMember members name value = members ++ [(name, value)] := by
  induction members with
  | nil => rfl
  | cons m members ih =>
    obtain ⟨key, old⟩ := m
    rw [List.map_cons, List.mem_cons, not_or] at h
    rw [setMember, if_neg (Ne.symm h.1), ih h.2, List.cons_append]

section

variable {style : Style} (hstyle : style.IsBlank) {fuel level : ℕ} {value : Json Wide}
  {c : Char} {cs others : List Char}

include hstyle

lemma skipSpace_newLine (hc : isSpace c = false) :
    skipSpace (style.newLine level ++ c :: cs) = c :: cs := by
  rw [skipSpace_of_isSpace (hstyle.newLine level), skipSpace_cons hc]

/-- A comma and what follows the blanks after it. -/
lemma exists_skipSpace_between (hc : isSpace c = false) : ∃ others,
    skipSpace (style.between level ++ c :: cs) = ',' :: others ∧ skipSpace others = c :: cs := by
  obtain ⟨blanks, hbetween, hblanks⟩ := hstyle.exists_between level
  refine ⟨blanks ++ c :: cs, ?_, ?_⟩
  · rw [hbetween, List.cons_append, skipSpace_cons (by decide)]
  · rw [skipSpace_of_isSpace hblanks, skipSpace_cons hc]

lemma parseItems_last {read : List (Json Wide)}
    (hvalue : parseValue fuel cs = .ok (value, style.newLine level ++ ']' :: rest)) :
    parseItems (fuel + 1) read cs = .ok ((value :: read).reverse, rest) := by
  rw [parseItems, hvalue, Except.bind_ok]
  dsimp only
  rw [skipSpace_newLine hstyle (by decide)]
  rfl

lemma parseItems_more {read : List (Json Wide)} (hc : isSpace c = false)
    (hvalue : parseValue fuel cs = .ok (value, style.between level ++ c :: others)) :
    parseItems (fuel + 1) read cs = parseItems fuel (value :: read) (c :: others) := by
  obtain ⟨after, hcomma, hafter⟩ := exists_skipSpace_between hstyle hc
  rw [parseItems, hvalue, Except.bind_ok]
  dsimp only
  rw [hcomma, ← hafter]
  rfl

omit hstyle in
/-- The name of a member and the colon are passed over. -/
lemma parseMembers_named {asciiOnly : Bool} {name : Wide} {read : List (Wide × Json Wide)}
    {after : List Char} (hname : IsKept asciiOnly name.points) (hc : isSpace c = false)
    (hvalue : parseValue fuel (c :: cs) = .ok (value, after)) :
    parseMembers (fuel + 1) read (spelledText asciiOnly name ++ ':' :: ' ' :: c :: cs) =
      match skipSpace after with
      | '\x7d' :: rest => .ok (setMember read name value, rest)
      | ',' :: rest => parseMembers fuel (setMember read name value) (skipSpace rest)
      | rest => .error ⟨.expectingComma, rest⟩ := by
  have hblank : skipSpace (' ' :: c :: cs) = c :: cs := skipSpace_cons hc
  rw [spelledText_eq, List.cons_append, List.append_assoc, List.singleton_append, parseMembers,
    parseText_spelled hname, Except.bind_ok]
  dsimp only
  rw [skipSpace_cons (by decide)]
  change parseValue fuel (skipSpace (' ' :: c :: cs)) >>= _ = _
  rw [hblank, hvalue]
  rfl

variable {asciiOnly : Bool} {name : Wide} {read : List (Wide × Json Wide)}
  (hname : IsKept asciiOnly name.points)

include hname

lemma parseMembers_last (hc : isSpace c = false)
    (hvalue : parseValue fuel (c :: cs) = .ok (value, style.newLine level ++ '\x7d' :: rest)) :
    parseMembers (fuel + 1) read (spelledText asciiOnly name ++ ':' :: ' ' :: c :: cs) =
      .ok (setMember read name value, rest) := by
  rw [parseMembers_named hname hc hvalue, skipSpace_newLine hstyle (by decide)]
  rfl

lemma parseMembers_more {d : Char} (hc : isSpace c = false) (hd : isSpace d = false)
    (hvalue : parseValue fuel (c :: cs) = .ok (value, style.between level ++ d :: others)) :
    parseMembers (fuel + 1) read (spelledText asciiOnly name ++ ':' :: ' ' :: c :: cs) =
      parseMembers fuel (setMember read name value) (d :: others) := by
  obtain ⟨after, hcomma, hafter⟩ := exists_skipSpace_between hstyle hd
  rw [parseMembers_named hname hc hvalue, hcomma, ← hafter]
  rfl

omit hname

lemma endsNumber_between : EndsNumber (style.between level ++ cs) := by
  obtain ⟨blanks, hbetween, -⟩ := hstyle.exists_between level
  rw [hbetween]
  exact endsNumber_cons (by decide)

lemma length_between_pos (level : ℕ) : 0 < (style.between level).length := by
  obtain ⟨blanks, hbetween, -⟩ := hstyle.exists_between level
  rw [hbetween]
  exact Nat.succ_pos _

end

section

variable {style : Style} (hstyle : style.IsBlank)

include hstyle

mutual

/-- The induction is on the value; the fuel exceeds the length of what is still to be read of it. -/
theorem parseValue_spelledValue : ∀ (value : Json Wide) (level fuel : ℕ) (rest : List Char),
    IsExact value → HasKeptTexts style.asciiOnly (texts value) → EndsNumber rest →
      (spelledValue style level value).length < fuel →
      parseValue fuel (spelledValue style level value ++ rest) = .ok (value, rest)
  | value, level, 0, rest, _, _, _, hfuel => absurd hfuel (Nat.not_lt_zero _)
  | .null, level, fuel + 1, rest, _, _, _, _ => rfl
  | .bool b, level, fuel + 1, rest, _, _, _, _ => by cases b <;> rfl
  | .int n, level, fuel + 1, rest, hexact, _, hends, _ => by
    rw [spelledValue_int]
    exact parseValue_intDigits fuel hexact hends
  | .float x, level, fuel + 1, rest, hexact, _, _, _ => hexact.elim
  | .text s, level, fuel + 1, rest, _, hkept, _, _ =>
    parseValue_spelledText fuel (hkept s List.mem_cons_self) rest
  | .list [], level, fuel + 1, rest, _, _, _, _ => rfl
  | .object [], level, fuel + 1, rest, _, _, _, _ => rfl
  | .list (item :: items), level, fuel + 1, rest, hexact, hkept, _, hfuel => by
    have hpieces : spelledItems style (level + 1) (item :: items) ≠ [] := by
      simp [spelledItems_cons]
    obtain ⟨c, cs, hcs, hc, hclose⟩ :=
      exists_intercalate_spelledItems style (level + 1) items hexact.1
    rw [spelledValue_list, style.enclose_of_ne_nil _ _ _ hpieces] at hfuel ⊢
    simp only [List.length_cons, List.length_append, List.length_nil] at hfuel
    have hitems := parseItems_spelledItems (item :: items) (level + 1) level fuel [] rest (by simp)
      hexact hkept (by omega)
    rw [List.cons_append, List.append_assoc, List.append_assoc, List.append_assoc,
      List.singleton_append, parseValue]
    rw [hcs, List.cons_append] at hitems ⊢
    rw [skipSpace_newLine hstyle hc]
    split
    · next heq => exact absurd (List.cons.inj heq).1 hclose
    · rw [hitems]
      rfl
  | .object (member :: members), level, fuel + 1, rest, hexact, hkept, _, hfuel => by
    have hpieces : spelledMembers style (level + 1) (member :: members) ≠ [] := by
      obtain ⟨name, value⟩ := member
      simp [spelledMembers_cons]
    obtain ⟨cs, hcs⟩ := exists_intercalate_spelledMembers style (level + 1) member members
    rw [spelledValue_object, style.enclose_of_ne_nil _ _ _ hpieces] at hfuel ⊢
    simp only [List.length_cons, List.length_append, List.length_nil] at hfuel
    have hmembers := parseMembers_spelledMembers (member :: members) (level + 1) level fuel [] rest
      (by simp) hexact.1 hexact.2 hkept (by omega)
    rw [List.cons_append, List.append_assoc, List.append_assoc, List.append_assoc,
      List.singleton_append, parseValue]
    rw [hcs, List.cons_append] at hmembers ⊢
    rw [skipSpace_newLine hstyle (by decide)]
    change (parseMembers fuel [] ('"' :: _)).map _ = _
    rw [hmembers]
    rfl

theorem parseItems_spelledItems : ∀ (items : List (Json Wide)) (level outer fuel : ℕ)
    (read : List (Json Wide)) (rest : List Char), items ≠ [] → AreExact items →
      HasKeptTexts style.asciiOnly (textsOfItems items) →
      (List.intercalate (style.between level) (spelledItems style level items)).length + 1 < fuel →
      parseItems fuel read (List.intercalate (style.between level) (spelledItems style level items) ++
        (style.newLine outer ++ ']' :: rest)) = .ok (read.reverse ++ items, rest)
  | [], _, _, _, _, _, hne, _, _, _ => absurd rfl hne
  | _ :: _, _, _, 0, _, _, _, _, _, hfuel => absurd hfuel (Nat.not_lt_zero _)
  | [item], level, outer, fuel + 1, read, rest, _, hexact, hkept, hfuel => by
    have hlast : spelledItems style level [item] = [spelledValue style level item] :=
      spelledItems_cons style level item []
    rw [hlast, List.intercalate_singleton] at hfuel ⊢
    have hvalue := parseValue_spelledValue item level fuel (style.newLine outer ++ ']' :: rest)
      hexact.1 (List.forall_mem_append.1 hkept).1 (endsNumber_newLine style outer (by decide))
      (by omega)
    rw [parseItems_last hstyle hvalue, List.reverse_cons]
  | item :: next :: items, level, outer, fuel + 1, read, rest, _, hexact, hkept, hfuel => by
    obtain ⟨hfirst, hmore⟩ := List.forall_mem_append.1 hkept
    obtain ⟨c, cs, hcs, hc, -⟩ := exists_intercalate_spelledItems style level items hexact.2.1
    have hcomma := length_between_pos hstyle level
    have hpieces : List.intercalate (style.between level)
        (spelledItems style level (item :: next :: items)) = spelledValue style level item ++
          style.between level ++ List.intercalate (style.between level)
            (spelledItems style level (next :: items)) := by
      simp only [spelledItems_cons, List.intercalate_cons_cons]
    rw [hpieces] at hfuel ⊢
    rw [List.length_append, List.length_append] at hfuel
    have hothers := parseItems_spelledItems (next :: items) level outer fuel (item :: read) rest
      (by simp) hexact.2 hmore (by omega)
    have hvalue := parseValue_spelledValue item level fuel
      (style.between level ++ (List.intercalate (style.between level)
        (spelledItems style level (next :: items)) ++ (style.newLine outer ++ ']' :: rest)))
      hexact.1 hfirst (endsNumber_between hstyle) (by omega)
    rw [hcs, List.cons_append] at hothers hvalue
    rw [List.append_assoc, List.append_assoc, hcs, List.cons_append,
      parseItems_more hstyle hc hvalue, hothers, List.reverse_cons, List.append_assoc,
      List.singleton_append]

theorem parseMembers_spelledMembers : ∀ (members : List (Wide × Json Wide)) (level outer fuel : ℕ)
    (read : List (Wide × Json Wide)) (rest : List Char), members ≠ [] →
      ((read ++ members).map Prod.fst).Nodup → AreExactMembers members →
      HasKeptTexts style.asciiOnly (textsOfMembers members) →
      (List.intercalate (style.between level) (spelledMembers style level members)).length + 1 <
        fuel →
      parseMembers fuel read
        (List.intercalate (style.between level) (spelledMembers style level members) ++
          (style.newLine outer ++ '\x7d' :: rest)) = .ok (read ++ members, rest)
  | [], _, _, _, _, _, hne, _, _, _, _ => absurd rfl hne
  | _ :: _, _, _, 0, _, _, _, _, _, _, hfuel => absurd hfuel (Nat.not_lt_zero _)
  | [(name, value)], level, outer, fuel + 1, read, rest, _, hnames, hexact, hkept, hfuel => by
    obtain ⟨hname, hkept⟩ := List.forall_mem_cons.1 hkept
    obtain ⟨c, cs, hcs, hc, -⟩ := exists_spelledValue_eq_cons style level hexact.1
    have hlast : spelledMembers style level [(name, value)] =
        [spelledText style.asciiOnly name ++ ':' :: ' ' :: spelledValue style level value] :=
      spelledMembers_cons style level name value []
    rw [hlast, List.intercalate_singleton] at hfuel ⊢
    rw [List.length_append, List.length_cons, List.length_cons] at hfuel
    have hvalue := parseValue_spelledValue value level fuel (style.newLine outer ++ '\x7d' :: rest)
      hexact.1 (List.forall_mem_append.1 hkept).1 (endsNumber_newLine style outer (by decide))
      (by omega)
    have hnew : name ∉ read.map Prod.fst := by
      rw [List.map_append, List.nodup_append] at hnames
      exact fun hmem => hnames.2.2 name hmem name (by simp) rfl
    rw [hcs, List.cons_append] at hvalue
    rw [hcs, List.append_assoc, List.cons_append, List.cons_append, List.cons_append,
      parseMembers_last hstyle hname hc hvalue, setMember_of_notMem value hnew]
  | (name, value) :: next :: members, level, outer, fuel + 1, read, rest, _, hnames, hexact, hkept,
      hfuel => by
    obtain ⟨hname, hkept⟩ := List.forall_mem_cons.1 hkept
    obtain ⟨hfirst, hmore⟩ := List.forall_mem_append.1 hkept
    obtain ⟨c, cs, hcs, hc, -⟩ := exists_spelledValue_eq_cons style level hexact.1
    obtain ⟨ds, hds⟩ := exists_intercalate_spelledMembers style level next members
    have hcomma := length_between_pos hstyle level
    have hpieces : List.intercalate (style.between level)
        (spelledMembers style level ((name, value) :: next :: members)) =
          (spelledText style.asciiOnly name ++ ':' :: ' ' :: spelledValue style level value) ++
            style.between level ++ List.intercalate (style.between level)
              (spelledMembers style level (next :: members)) := by
      rw [spelledMembers_cons]
      exact List.intercalate_cons_cons
    rw [hpieces] at hfuel ⊢
    simp only [List.length_append, List.length_cons] at hfuel
    have hnew : name ∉ read.map Prod.fst := by
      rw [List.map_append, List.nodup_append] at hnames
      exact fun hmem => hnames.2.2 name hmem name (by simp) rfl
    have hothers := parseMembers_spelledMembers (next :: members) level outer fuel
      (read ++ [(name, value)]) rest (by simp) (by simpa using hnames) hexact.2 hmore (by omega)
    have hvalue := parseValue_spelledValue value level fuel
      (style.between level ++ (List.intercalate (style.between level)
        (spelledMembers style level (next :: members)) ++ (style.newLine outer ++ '\x7d' :: rest)))
      hexact.1 hfirst (endsNumber_between hstyle) (by omega)
    rw [hds, List.cons_append] at hothers hvalue
    rw [hcs, List.cons_append] at hvalue
    simp only [hcs, hds, List.append_assoc, List.cons_append]
    rw [parseMembers_more hstyle hname hc (by decide) hvalue, setMember_of_notMem value hnew,
      hothers, List.append_assoc, List.singleton_append]

end

/-- A written text is read as the value that it was written for. -/
theorem parse_spelledValue {value : Json Wide} (h : IsExact value)
    (hkept : HasKeptTexts style.asciiOnly (texts value)) :
    parse (String.ofList (spelledValue style 0 value)) = .ok value := by
  obtain ⟨c, cs, hcs, hc, -, hmark⟩ := exists_spelledValue_eq_cons style 0 h
  have hvalue := parseValue_spelledValue hstyle value 0 ((spelledValue style 0 value).length + 1) []
    h hkept endsNumber_nil (Nat.lt_succ_self _)
  rw [List.append_nil, hcs] at hvalue
  rw [parse, String.toList_ofList, hcs, parseChars, if_neg hmark, skipSpace_cons hc, hvalue,
    Except.bind_ok]
  rfl

end

end Interchange.Json
