import Interchange.Proofs.Json.RoundTrip
import Interchange.Text.Encoding
import Mathlib.Data.List.TakeWhile

/-!
# Halves of pairs in JSON

Halves of pairs come into written JSON from the texts and the names of the value alone, and not
where they are escaped. Bytes can be made of what is written just if none came in. Text that is read
may have halves, but a first half and a second one in a row are read as the character they make.
-/
namespace Interchange

namespace Json

variable {τ : Type} [Textual τ] {points others : List Point}

lemma isWhole_append : IsWhole (points ++ others) ↔ IsWhole points ∧ IsWhole others :=
  List.forall_mem_append

@[simp] lemma isWhole_map_char (cs : List Char) : IsWhole (cs.map Point.char) :=
  List.forall_mem_map.2 fun _ _ => rfl

@[simp] lemma isWhole_cons_char (c : Char) : IsWhole (.char c :: points) ↔ IsWhole points := by
  rw [IsWhole, List.forall_mem_cons]
  exact and_iff_right rfl

lemma IsWhole.isUnpaired (h : IsWhole points) : IsUnpaired points := by
  induction points with
  | nil => exact .nil
  | cons point points ih =>
    obtain ⟨hpoint, hothers⟩ := List.forall_mem_cons.1 h
    refine (ih hothers).cons fun next _ hpair => ?_
    cases point with
    | char c => cases hpair.1
    | half n => cases hpoint

/-- Characters alone are kept whether they are escaped or not. -/
lemma IsWhole.isKept (h : IsWhole points) (asciiOnly : Bool) : IsKept asciiOnly points := by
  cases asciiOnly with
  | true => exact h.isUnpaired
  | false => exact h

lemma isWhole_printPoint (asciiOnly : Bool) (point : Point) :
    IsWhole (printPoint asciiOnly point) ↔ asciiOnly = true ∨ point.isHalf = false := by
  cases point with
  | char c => exact iff_of_true (isWhole_map_char _) (.inr rfl)
  | half n =>
    cases asciiOnly with
    | true => exact iff_of_true (isWhole_map_char _) (.inl rfl)
    | false => simp [printPoint, IsWhole]

lemma isWhole_printText (asciiOnly : Bool) (text : τ) :
    IsWhole (printText asciiOnly text) ↔ asciiOnly = true ∨ IsWhole (Textual.points text) := by
  have hinside : IsWhole ((Textual.points text).flatMap (printPoint asciiOnly)) ↔
      ∀ point ∈ Textual.points text, IsWhole (printPoint asciiOnly point) := by
    simp only [IsWhole, List.mem_flatMap]
    exact ⟨fun h point hpoint found hfound => h found ⟨point, hpoint, hfound⟩,
      fun h found ⟨point, hpoint, hfound⟩ => h point hpoint found hfound⟩
  have hquote : IsWhole [.char '"'] := isWhole_map_char ['"']
  rw [printText, List.cons_append, isWhole_cons_char, isWhole_append, hinside,
    and_iff_left hquote]
  simp only [isWhole_printPoint]
  cases asciiOnly with
  | true => simp
  | false => simp [IsWhole]

lemma isWhole_intercalate {separator : List Point} (h : IsWhole separator)
    (pieces : List (List Point)) :
    IsWhole (List.intercalate separator pieces) ↔ ∀ piece ∈ pieces, IsWhole piece := by
  induction pieces with
  | nil => exact iff_of_true (List.forall_mem_nil _) (List.forall_mem_nil _)
  | cons piece pieces ih =>
    cases pieces with
    | nil => rw [List.intercalate_singleton, List.forall_mem_singleton]
    | cons next pieces =>
      rw [List.intercalate_cons_cons, isWhole_append, isWhole_append, ih, and_iff_left h]
      exact List.forall_mem_cons.symm

lemma isWhole_enclose (style : Style) (level : ℕ) (left right : Char)
    (pieces : List (List Point)) :
    IsWhole (style.enclose .char level left right pieces) ↔ ∀ piece ∈ pieces, IsWhole piece := by
  have hright : IsWhole [.char right] := isWhole_map_char [right]
  unfold Style.enclose
  cases pieces with
  | nil => exact iff_of_true (isWhole_map_char [left, right]) (List.forall_mem_nil _)
  | cons piece pieces =>
    rw [if_neg (by simp)]
    simp only [isWhole_append, isWhole_cons_char, List.cons_append, isWhole_map_char, hright,
      true_and, and_true, isWhole_intercalate]

mutual

theorem isWhole_printValue (style : Style) : ∀ (value : Json τ) (level : ℕ),
    IsWhole (printValue style level value) ↔
      ∀ text ∈ texts value, style.asciiOnly = true ∨ IsWhole (Textual.points text)
  | .null, _ => iff_of_true (isWhole_map_char _) (List.forall_mem_nil _)
  | .bool _, _ => iff_of_true (isWhole_map_char _) (List.forall_mem_nil _)
  | .int _, _ => iff_of_true (isWhole_map_char _) (List.forall_mem_nil _)
  | .float _, _ => iff_of_true (isWhole_map_char _) (List.forall_mem_nil _)
  | .text s, _ => by rw [printValue, isWhole_printText, texts, List.forall_mem_singleton]
  | .list items, level => by
    rw [printValue, isWhole_enclose, isWhole_printItems style items, texts]
  | .object members, level => by
    rw [printValue, isWhole_enclose, isWhole_printMembers style members, texts]

theorem isWhole_printItems (style : Style) : ∀ (items : List (Json τ)) (level : ℕ),
    (∀ piece ∈ printItems style level items, IsWhole piece) ↔
      ∀ text ∈ textsOfItems items, style.asciiOnly = true ∨ IsWhole (Textual.points text)
  | [], _ => iff_of_true (List.forall_mem_nil _) (List.forall_mem_nil _)
  | item :: items, level => by
    rw [printItems, List.forall_mem_cons, textsOfItems, List.forall_mem_append,
      isWhole_printValue style item, isWhole_printItems style items]

theorem isWhole_printMembers (style : Style) : ∀ (members : List (τ × Json τ)) (level : ℕ),
    (∀ piece ∈ printMembers style level members, IsWhole piece) ↔
      ∀ text ∈ textsOfMembers members, style.asciiOnly = true ∨ IsWhole (Textual.points text)
  | [], _ => iff_of_true (List.forall_mem_nil _) (List.forall_mem_nil _)
  | (name, value) :: members, level => by
    rw [printMembers, List.forall_mem_cons, textsOfMembers, List.forall_mem_cons,
      List.forall_mem_append, isWhole_append, isWhole_cons_char, isWhole_cons_char,
      isWhole_printText, isWhole_printValue style value, isWhole_printMembers style members,
      and_assoc]

end

end Json

namespace Text

open Json (IsWhole)

/-- The first half is where the dropping stops. -/
theorem encodable_eq_ok_iff {points : List Point} {text : String} :
    encodable points = .ok text ↔
      IsWhole points ∧ text = String.ofList (points.map Point.whole) := by
  have hwhole : IsWhole points ↔ (points.dropWhile fun point => !point.isHalf) = [] := by
    simp [List.dropWhile_eq_nil_iff, IsWhole]
  rw [hwhole, encodable]
  cases hdropped : points.dropWhile fun point => !point.isHalf with
  | nil => simp [eq_comm]
  | cons point rest =>
    have hhalf : (!point.isHalf) = false := by
      have hhead := List.head?_dropWhile_not (fun point : Point => !point.isHalf) points
      rwa [hdropped] at hhead
    cases point with
    | char c => cases hhalf
    | half n => simp

end Text

namespace Json

variable {start whole cs rest : List Char} {read points : List Point} {point : Point}

/-- If a code escape comes first, it is not that of a second half. -/
def StartsApart (cs : List Char) : Prop :=
  ∀ second n after, cs = '\\' :: 'u' :: second → escapeCode ('u' :: second) = .ok (n, after) →
    isLowHalf n = false

lemma isLowHalf_of_isLow {n : ℕ} (h : (Point.ofCode n).isLow) : isLowHalf n = true := by
  unfold Point.ofCode at h
  split at h
  · simp only [Point.isLow, decide_eq_true_eq] at h
    change 0x400 ≤ n - 0xd800 at h
    simp only [isLowHalf, Bool.and_eq_true, decide_eq_true_eq]
    omega
  · cases h

lemma isHighHalf_of_isHigh {n : ℕ} (h : (Point.ofCode n).isHigh) : isHighHalf n = true := by
  unfold Point.ofCode at h
  split at h
  · simp only [Point.isHigh, decide_eq_true_eq] at h
    change n - 0xd800 < 0x400 at h
    simp only [isHighHalf, Bool.and_eq_true, decide_eq_true_eq]
    omega
  · cases h

/-- A point that is read from an escape is a character, or what a code stands for; if that is a first
half, no second one follows. -/
lemma escape_cases (h : escape start whole cs = .ok (point, rest)) :
    (∃ c, point = .char c) ∨ ∃ after n, cs = 'u' :: after ∧ point = .ofCode n ∧
      escapeCode ('u' :: after) = .ok (n, rest) ∧ (point.isHigh → StartsApart rest) := by
  unfold escape at h
  split at h
  · cases h
  · next after =>
    split at h
    · cases h
    · next high others hcode =>
      split at h
      · next second =>
        split at h
        · next hpair =>
          split at h
          · cases h
          · next low more hlow =>
            split at h
            · cases h
              exact .inl ⟨_, rfl⟩
            · next hnot =>
              cases h
              refine .inr ⟨after, high, rfl, rfl, hcode, fun _ => ?_⟩
              rintro _ n others ⟨⟩ hn
              rw [hlow] at hn
              cases hn
              simpa using hnot
        · next hnot =>
          cases h
          refine .inr ⟨after, high, rfl, rfl, hcode, fun hhigh => ?_⟩
          rintro _ n others ⟨⟩ hn
          have hshort : (second.drop 4).isEmpty = true := by
            simpa [isHighHalf_of_isHigh hhigh] using hnot
          rw [escapeCode, List.drop_one, List.tail_cons, if_pos hshort] at hn
          cases hn
      · next hapart =>
        cases h
        refine .inr ⟨after, high, rfl, rfl, hcode, fun _ => ?_⟩
        rintro second n others heq _
        exact absurd heq (hapart second)
  · next c others hne =>
    split at h
    · next d hd =>
      cases h
      exact .inl ⟨d, rfl⟩
    · cases h

/-- What is read of a text after what was read already: no pair of halves, and no second half first
where the text starts with no code of one. -/
theorem parseText_unpaired (h : parseText start read cs = .ok (points, rest)) :
    ∃ more, points = read.reverse ++ more ∧ IsUnpaired more ∧
      (StartsApart cs → ∀ next ∈ more.head?, next.isLow = false) := by
  fun_induction parseText start read cs with
  | case1 => cases h
  | case2 read rest =>
    cases h
    exact ⟨[], (List.append_nil _).symm, .nil, fun _ => nofun⟩
  | case3 read rest fault hfault => cases h
  | case4 read rest point after hescape ih =>
    obtain ⟨more, rfl, hmore, hfirst⟩ := ih h
    refine ⟨point :: more, by simp, ?_, fun hstart next hnext => ?_⟩
    · refine hmore.cons fun next hnext => ?_
      rintro ⟨hhigh, hlow⟩
      rcases escape_cases hescape with ⟨c, rfl⟩ | ⟨second, n, -, -, -, happart⟩
      · cases hhigh
      · rw [hfirst (happart hhigh) next hnext] at hlow
        cases hlow
    · cases hnext
      rcases escape_cases hescape with ⟨c, rfl⟩ | ⟨second, n, rfl, rfl, hcode, -⟩
      · rfl
      · by_contra hlow
        have hlow : isLowHalf n = true := isLowHalf_of_isLow (by simpa using hlow)
        rw [hstart second n after rfl hcode] at hlow
        cases hlow
  | case5 read c rest hquote hslash hcontrol => cases h
  | case6 read c rest hquote hslash hcontrol ih =>
    obtain ⟨more, rfl, hmore, -⟩ := ih h
    refine ⟨.char c :: more, by simp, hmore.cons fun next hnext hpair => ?_, fun _ next hnext => ?_⟩
    · cases hpair.1
    · cases hnext
      rfl

section

variable {P : Wide → Prop}

lemma forall_mem_texts_setMember {members : List (Wide × Json Wide)} {name : Wide}
    {value : Json Wide} (hmembers : ∀ text ∈ textsOfMembers members, P text) (hname : P name)
    (hvalue : ∀ text ∈ texts value, P text) :
    ∀ text ∈ textsOfMembers (setMember members name value), P text := by
  rw [forall_mem_textsOfMembers_iff] at hmembers ⊢
  induction members with
  | nil => exact List.forall_mem_singleton.2 ⟨hname, hvalue⟩
  | cons member members ih =>
    obtain ⟨hfirst, hothers⟩ := List.forall_mem_cons.1 hmembers
    rw [setMember]
    split
    · exact List.forall_mem_cons.2 ⟨⟨hfirst.1, hvalue⟩, hothers⟩
    · exact List.forall_mem_cons.2 ⟨hfirst, ih hothers⟩

lemma forall_mem_texts_literal {value : Json Wide} (h : literal? cs = some (value, rest)) :
    ∀ text ∈ texts value, P text := by
  have hword {word : String} {found : Json Wide} (hfound : texts found = [])
      (h : (if word.toList.isPrefixOf cs then some (found, cs.drop word.length) else none) =
        some (value, rest)) : ∀ text ∈ texts value, P text := by
    split at h
    · cases h
      rw [hfound]
      exact List.forall_mem_nil _
    · cases h
  simp only [literal?, Option.orElse_eq_some] at h
  rcases h with h | ⟨-, h | ⟨-, h | ⟨-, h | ⟨-, h | ⟨-, h⟩⟩⟩⟩⟩ <;> exact hword rfl h

lemma forall_mem_texts_parseNumber {negative : Bool} {value : Json Wide}
    (h : parseNumber start negative cs = .ok (value, rest)) : ∀ text ∈ texts value, P text := by
  rw [parseNumber] at h
  split at h
  · cases h
  dsimp only at h
  split at h
  · split at h
    · cases h
    · cases h
      exact List.forall_mem_nil _
  · cases h
    exact List.forall_mem_nil _

/-- What is read as one value has texts that satisfy `P` alone. -/
def ValueHolds (P : Wide → Prop) (fuel : ℕ) : Prop :=
  ∀ {cs value rest}, parseValue fuel cs = .ok (value, rest) → ∀ text ∈ texts value, P text

def MembersHold (P : Wide → Prop) (fuel : ℕ) : Prop :=
  ∀ {read cs members rest}, parseMembers fuel read cs = .ok (members, rest) →
    (∀ text ∈ textsOfMembers read, P text) → ∀ text ∈ textsOfMembers members, P text

def ItemsHold (P : Wide → Prop) (fuel : ℕ) : Prop :=
  ∀ {read cs items rest}, parseItems fuel read cs = .ok (items, rest) →
    (∀ item ∈ read, ∀ text ∈ texts item, P text) → ∀ item ∈ items, ∀ text ∈ texts item, P text

/-- What is read between quotes satisfies `P`. -/
def QuotedHold (P : Wide → Prop) : Prop :=
  ∀ {start cs points rest}, parseText start [] cs = .ok (points, rest) → P ⟨points⟩

variable {fuel : ℕ}

lemma itemsHold_succ (hvalue : ValueHolds P fuel) (hitems : ItemsHold P fuel) :
    ItemsHold P (fuel + 1) := by
  intro read cs items rest h hread
  rw [parseItems] at h
  obtain ⟨⟨value, after⟩, hfirst, h⟩ := Except.bind_eq_ok_iff.1 h
  dsimp only at h
  have hall : ∀ item ∈ value :: read, ∀ text ∈ texts item, P text :=
    List.forall_mem_cons.2 ⟨hvalue hfirst, hread⟩
  split at h
  · cases h
    exact fun item hitem => hall item (List.mem_reverse.1 hitem)
  · exact hitems h hall
  · cases h

variable (hquoted : QuotedHold P)

include hquoted

lemma valueHolds_succ (hmembers : MembersHold P fuel) (hitems : ItemsHold P fuel) :
    ValueHolds P (fuel + 1) := by
  intro cs value rest h
  rw [parseValue.eq_def] at h
  dsimp only at h
  split at h
  · next others =>
    obtain ⟨⟨points, after⟩, htext, h⟩ := Except.map_eq_ok_iff.1 h
    cases h
    exact List.forall_mem_singleton.2 (hquoted htext)
  · next others =>
    split at h
    · cases h
      exact List.forall_mem_nil _
    · obtain ⟨⟨members, after⟩, hfound, h⟩ := Except.map_eq_ok_iff.1 h
      cases h
      exact hmembers hfound (List.forall_mem_nil _)
  · next others =>
    split at h
    · cases h
      exact List.forall_mem_nil _
    · obtain ⟨⟨items, after⟩, hfound, h⟩ := Except.map_eq_ok_iff.1 h
      cases h
      exact forall_mem_textsOfItems_iff.2 (hitems hfound (List.forall_mem_nil _))
  · split at h
    · next found hliteral =>
      cases h
      exact forall_mem_texts_literal hliteral
    · split at h <;> exact forall_mem_texts_parseNumber h

lemma membersHold_succ (hvalue : ValueHolds P fuel) (hmembers : MembersHold P fuel) :
    MembersHold P (fuel + 1) := by
  intro read cs members rest h hread
  rw [parseMembers.eq_def] at h
  dsimp only at h
  split at h
  · next others =>
    obtain ⟨⟨name, after⟩, htext, h⟩ := Except.bind_eq_ok_iff.1 h
    dsimp only at h
    split at h
    · obtain ⟨⟨value, after⟩, hfirst, h⟩ := Except.bind_eq_ok_iff.1 h
      dsimp only at h
      have hall : ∀ text ∈ textsOfMembers (setMember read ⟨name⟩ value), P text :=
        forall_mem_texts_setMember hread (hquoted htext) (hvalue hfirst)
      split at h
      · cases h
        exact hall
      · exact hmembers h hall
      · cases h
    · cases h
  · cases h

/-- The three readers call one another with less fuel, so one induction carries them all. -/
theorem valueHolds (fuel : ℕ) : ValueHolds P fuel ∧ MembersHold P fuel ∧ ItemsHold P fuel := by
  induction fuel with
  | zero =>
    refine ⟨fun h => ?_, fun h => ?_, fun h => ?_⟩
    · rw [parseValue] at h
      cases h
    · rw [parseMembers] at h
      cases h
    · rw [parseItems] at h
      cases h
  | succ fuel ih =>
    obtain ⟨hvalue, hmembers, hitems⟩ := ih
    exact ⟨valueHolds_succ hquoted hmembers hitems, membersHold_succ hquoted hvalue hmembers,
      itemsHold_succ hvalue hitems⟩

end

/-- No text that is read has a pair of halves. -/
theorem isUnpaired_of_parse {text : String} {value : Json Wide} (h : parse text = .ok value) :
    ∀ found ∈ texts value, IsUnpaired found.points := by
  have hquoted : QuotedHold fun found => IsUnpaired found.points := by
    intro start cs points rest hpoints
    obtain ⟨more, rfl, hmore, -⟩ := parseText_unpaired hpoints
    exact hmore
  unfold parse parseChars at h
  split at h
  · split at h
    · cases h
    obtain ⟨⟨found, after⟩, hfound, h⟩ := Except.bind_eq_ok_iff.1 h
    dsimp only at h
    split at h
    · cases h
      exact (valueHolds hquoted _).1 hfound
    · cases h
  · cases h

end Json

end Interchange
