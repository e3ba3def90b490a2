import LadderLogic.Json.Decode
import Mathlib.Data.List.TakeWhile

/-! Reading the text of a value, followed by any text that cannot belong to a number. The fuel of the reader is
three units for each character, which is never used up. -/
namespace LadderLogic.Json

theorem hexQuad?_hexDigit : ∀ n < 0x20, hexQuad? '0' '0' (hexDigit (n / 16)) (hexDigit n) = some n := by
  decide

/-- A character is named by a letter, given by its number or stands for itself. -/
theorem escapedChar_cases (c : Char) :
    (∃ e, escapedChar c = ['\\', e] ∧ e ≠ 'u' ∧ simpleEscape? e = some c) ∨
      (c.toNat < 0x20 ∧ ∃ a b, escapedChar c = ['\\', 'u', '0', '0', a, b] ∧
        hexQuad? '0' '0' a b = some c.toNat) ∨
      (escapedChar c = [c] ∧ c ≠ '"' ∧ c ≠ '\\' ∧ ¬c.toNat < 0x20) := by
  have hcode : ∀ n, (c.toNat == n) = true → Char.ofNat n = c := by
    intro n h
    rw [← eq_of_beq h, Char.ofNat_toNat]
  fun_cases escapedChar c with
  | case1 hquote => exact .inl ⟨'"', rfl, by decide, congrArg some (eq_of_beq hquote).symm⟩
  | case2 _ hslash => exact .inl ⟨'\\', rfl, by decide, congrArg some (eq_of_beq hslash).symm⟩
  | case3 _ _ hback => exact .inl ⟨'b', rfl, by decide, congrArg some (hcode _ hback)⟩
  | case4 _ _ _ htab => exact .inl ⟨'t', rfl, by decide, congrArg some (eq_of_beq htab).symm⟩
  | case5 _ _ _ _ hline => exact .inl ⟨'n', rfl, by decide, congrArg some (eq_of_beq hline).symm⟩
  | case6 _ _ _ _ _ hfeed => exact .inl ⟨'f', rfl, by decide, congrArg some (hcode _ hfeed)⟩
  | case7 _ _ _ _ _ _ hreturn => exact .inl ⟨'r', rfl, by decide, congrArg some (eq_of_beq hreturn).symm⟩
  | case8 _ _ _ _ _ _ _ hcontrol =>
    exact .inr (.inl ⟨hcontrol, _, _, rfl, hexQuad?_hexDigit c.toNat hcontrol⟩)
  | case9 hquote hslash _ _ _ _ _ hcontrol =>
    exact .inr (.inr ⟨rfl, by simpa using hquote, by simpa using hslash, hcontrol⟩)

theorem readString_escapedChar (c : Char) (rest : List Char) :
    readString (escapedChar c ++ rest) = prepend c (readString rest) := by
  rcases escapedChar_cases c with ⟨e, heq, hu, hsimple⟩ | ⟨hcontrol, a, b, heq, hquad⟩ |
    ⟨heq, hquote, hslash, hcontrol⟩
  · rw [heq, List.cons_append, readString.eq_def]
    simp [hu, hsimple]
  · have hlow : isLowSurrogate c.toNat = false := by
      simp only [isLowSurrogate, Bool.and_eq_false_iff, decide_eq_false_iff_not]
      omega
    have hhigh : isHighSurrogate c.toNat = false := by
      simp only [isHighSurrogate, Bool.and_eq_false_iff, decide_eq_false_iff_not]
      omega
    rw [heq, List.cons_append, readString.eq_def]
    simp [hquad, hlow, hhigh, Char.ofNat_toNat]
  · rw [heq, List.singleton_append, readString.eq_def]
    simp [hquote, hslash, hcontrol]

theorem skipString_escapedChar (c : Char) (rest : List Char) :
    skipString (escapedChar c ++ rest) = skipString rest := by
  rcases escapedChar_cases c with ⟨e, heq, hu, hsimple⟩ | ⟨-, a, b, heq, hquad⟩ |
    ⟨heq, hquote, hslash, hcontrol⟩
  · rw [heq, List.cons_append, skipString.eq_def]
    simp [hu, hsimple]
  · rw [heq, List.cons_append, skipString.eq_def]
    simp [hquad]
  · rw [heq, List.singleton_append, skipString.eq_def]
    simp [hquote, hslash, hcontrol]

theorem readString_escaped (cs rest : List Char) :
    readString (cs.flatMap escapedChar ++ '"' :: rest) = .ok (cs, rest) := by
  induction cs with
  | nil =>
    rw [List.flatMap_nil, List.nil_append, readString.eq_def]
    rfl
  | cons c cs ih =>
    rw [List.flatMap_cons, List.append_assoc, readString_escapedChar, ih]
    rfl

theorem skipString_escaped (cs rest : List Char) :
    skipString (cs.flatMap escapedChar ++ '"' :: rest) = .ok rest := by
  induction cs with
  | nil =>
    rw [List.flatMap_nil, List.nil_append, skipString.eq_def]
    rfl
  | cons c cs ih => rw [List.flatMap_cons, List.append_assoc, skipString_escapedChar, ih]

theorem scanString_escaped (s : String) (rest : List Char) :
    scanString (s.toList.flatMap escapedChar ++ '"' :: rest) = .ok (.ok s, rest) := by
  unfold scanString
  rw [readString_escaped, skipString_escaped]
  simp only [Except.map, String.ofList_toList]

theorem quotedChars_append (s : String) (rest : List Char) :
    quotedChars s ++ rest = '"' :: (s.toList.flatMap escapedChar ++ '"' :: rest) := by
  unfold quotedChars
  rw [List.cons_append, List.append_assoc, List.singleton_append]

/-- The text does not start with a character that could belong to a number before it. -/
def EndsNumber (rest : List Char) : Prop :=
  ∀ c ∈ rest.head?, c.isDigit = false ∧ c ≠ '.' ∧ c ≠ 'e' ∧ c ≠ 'E'

theorem endsNumber_nil : EndsNumber [] := by
  intro c hc
  cases hc

theorem le_ofDigitChars (n : Nat) (ds : List Char) : n ≤ Nat.ofDigitChars 10 ds n := by
  induction ds generalizing n with
  | nil => exact le_rfl
  | cons c ds ih =>
    rw [Nat.ofDigitChars_cons]
    have hle := ih (10 * n + (c.toNat - '0'.toNat))
    omega

/-- A number of 64 bits is read digit by digit to its end. -/
theorem significand_of_lt {n : Nat} {ds : List Char} (h : Nat.ofDigitChars 10 ds n < UInt64.size) :
    significand n ds = (Nat.ofDigitChars 10 ds n, []) := by
  induction ds generalizing n with
  | nil => rfl
  | cons c ds ih =>
    rw [Nat.ofDigitChars_cons, ← Nat.mul_comm n 10] at h ⊢
    have hle := le_ofDigitChars (n * 10 + (c.toNat - '0'.toNat)) ds
    unfold significand digitValue
    rw [if_pos (lt_of_le_of_lt hle h)]
    exact ih h

theorem exists_cons_toDigits (n : Nat) :
    ∃ c cs, Nat.toDigits 10 n = c :: cs ∧ (c = '0' → n = 0 ∧ cs = []) := by
  induction n using Nat.strong_induction_on with
  | _ n ih =>
    rw [Nat.toDigits_eq_if (by decide)]
    split
    · next hlt =>
      have hdigit : ∀ m < 10, m.digitChar = '0' → m = 0 := by decide
      exact ⟨n.digitChar, [], rfl, fun hzero => ⟨hdigit n hlt hzero, rfl⟩⟩
    · next hge =>
      obtain ⟨c, cs, heq, hzero⟩ := ih (n / 10) (by omega)
      refine ⟨c, cs ++ [(n % 10).digitChar], by rw [heq, List.cons_append], fun hc => ?_⟩
      have hdiv := (hzero hc).1
      omega

section EndsNumber

variable {rest : List Char} (h : EndsNumber rest)
include h

theorem EndsNumber.takeWhile_append {ds : List Char} (hds : ∀ c ∈ ds, c.isDigit = true) :
    (ds ++ rest).takeWhile Char.isDigit = ds := by
  have hrest : rest.takeWhile Char.isDigit = [] := by
    cases rest with
    | nil => rfl
    | cons c rest => exact List.takeWhile_cons_of_neg (by simp [(h c rfl).1])
  rw [List.takeWhile_append_of_pos hds, hrest, List.append_nil]

theorem EndsNumber.dropWhile_append {ds : List Char} (hds : ∀ c ∈ ds, c.isDigit = true) :
    (ds ++ rest).dropWhile Char.isDigit = rest := by
  have hrest : rest.dropWhile Char.isDigit = rest := by
    cases rest with
    | nil => rfl
    | cons c rest => exact List.dropWhile_cons_of_neg (by simp [(h c rfl).1])
  rw [List.dropWhile_append_of_pos hds, hrest]

theorem EndsNumber.scanFraction (x : Numeral) : scanFraction x rest = .ok (x, rest) := by
  cases rest with
  | nil => rfl
  | cons c rest =>
    obtain ⟨-, hdot, he, hE⟩ := h c rfl
    simp [Json.scanFraction, scanExponent, hdot, he, hE]

theorem EndsNumber.scanNumeral_toDigits (n : Nat) :
    scanNumeral false (Nat.toDigits 10 n ++ rest) = .ok (⟨false, Nat.toDigits 10 n, [], none⟩, rest) := by
  have hdigits : ∀ c ∈ Nat.toDigits 10 n, c.isDigit = true := fun c hc =>
    Nat.isDigit_of_mem_toDigits (by decide) (by decide) hc
  obtain ⟨c, cs, heq, hzero⟩ := exists_cons_toDigits n
  unfold scanNumeral
  split
  · next zeros hzeros =>
    -- A zero is the whole number, and no digit follows it.
    rw [heq, List.cons_append] at hzeros
    obtain ⟨hc, rfl⟩ := List.cons.inj hzeros
    obtain ⟨rfl, rfl⟩ := hzero hc
    have hhead : (rest.head?.map Char.isDigit).getD false = false := by
      cases rest with
      | nil => rfl
      | cons c rest => exact (h c rfl).1
    rw [List.nil_append, hhead, if_neg (by decide), h.scanFraction]
    rfl
  · have hne : (Nat.toDigits 10 n).isEmpty = false := by rw [heq, List.isEmpty_cons]
    rw [h.takeWhile_append hdigits, h.dropWhile_append hdigits]
    simp only [hne, Bool.false_eq_true, if_false, h.scanFraction]

end EndsNumber

theorem value_toDigits {n : Nat} (h : n < UInt64.size) :
    Numeral.value ⟨false, Nat.toDigits 10 n, [], none⟩ = .ok (.natural n) := by
  have hsignificand : significand 0 (Nat.toDigits 10 n) = (n, []) := by
    have hvalue := @Nat.ofDigitChars_ten_toDigits n
    rw [significand_of_lt (by rw [hvalue]; exact h), hvalue]
  simp [Numeral.value, hsignificand]

theorem skipSpace_cons {c : Char} (h : isSpace c = false) (cs : List Char) :
    skipSpace (c :: cs) = c :: cs :=
  List.dropWhile_cons_of_neg (by simp [h])

theorem isSpace_of_isDigit {c : Char} (h : c.isDigit = true) : isSpace c = false := by
  rw [Bool.eq_false_iff]
  intro hspace
  simp only [isSpace, Bool.or_eq_true, beq_iff_eq] at hspace
  rcases hspace with ((rfl | rfl) | rfl) | rfl <;> cases h

theorem readValue_of_isDigit {c : Char} (h : c.isDigit = true) (fuel : Nat) (cs : List Char) :
    readValue (fuel + 1) (c :: cs) = numeral false (c :: cs) := by
  rw [readValue, skipSpace_cons (isSpace_of_isDigit h)]
  split
  case h_1 heq => cases heq
  case h_9 heq =>
    cases heq
    exact if_pos h
  all_goals
    next heq =>
    cases heq
    cases h

/-- The text of the value is read as the value, whatever follows it. Its first character tells an item from the
end of its array. -/
structure ReadsBack (v : Json) : Prop where
  starts : ∃ c cs, v.compactChars = c :: cs ∧ isSpace c = false ∧ c ≠ ']'
  reads : ∀ {fuel rest}, 3 * v.compactChars.length ≤ fuel + 1 → EndsNumber rest →
    readValue (fuel + 1) (v.compactChars ++ rest) = (.ofJson v, some rest)

namespace ReadsBack

theorem length_pos {v : Json} (h : v.ReadsBack) : 0 < v.compactChars.length := by
  obtain ⟨c, cs, heq, -⟩ := h.starts
  rw [heq]
  exact Nat.succ_pos _

theorem bool (b : Bool) : (Json.bool b).ReadsBack := by
  cases b with
  | false => exact ⟨⟨'f', _, rfl, rfl, by decide⟩, fun _ _ => rfl⟩
  | true => exact ⟨⟨'t', _, rfl, rfl, by decide⟩, fun _ _ => rfl⟩

theorem string (s : String) : (Json.string s).ReadsBack where
  starts := ⟨'"', _, rfl, rfl, by decide⟩
  reads := by
    intro fuel rest _ _
    rw [compactChars, quotedChars_append, readValue, skipSpace_cons rfl]
    simp only [scanString_escaped, Document.ofJson]

theorem natural {n : Nat} (h : n < UInt64.size) : (Json.nat n).ReadsBack := by
  have htext : (Json.nat n).compactChars = Nat.toDigits 10 n := by
    rw [Json.nat, compactChars, Number.render, Nat.toString_eq_ofList_toDigits, String.toList_ofList]
  obtain ⟨c, cs, heq, -⟩ := exists_cons_toDigits n
  have hdigit : c.isDigit = true := by
    have hmem : c ∈ Nat.toDigits 10 n := by rw [heq]; exact List.mem_cons_self
    exact Nat.isDigit_of_mem_toDigits (by decide) (by decide) hmem
  refine ⟨⟨c, cs, htext.trans heq, isSpace_of_isDigit hdigit, ?_⟩, ?_⟩
  · rintro rfl
    cases hdigit
  · intro fuel rest _ hrest
    have hread : readValue (fuel + 1) (Nat.toDigits 10 n ++ rest) =
        numeral false (Nat.toDigits 10 n ++ rest) := by
      rw [heq, List.cons_append, readValue_of_isDigit hdigit]
    rw [htext, hread, numeral, hrest.scanNumeral_toDigits n]
    simp only [value_toDigits h]
    rfl

end ReadsBack

theorem endsNumber_compactItems (items : List Json) (rest : List Char) :
    EndsNumber (compactItems false items ++ rest) := by
  cases items with
  | nil => exact fun c hc => by cases hc; decide
  | cons v items =>
    rw [compactItems]
    exact fun c hc => by cases hc; decide

theorem endsNumber_compactMembers (members : List (String × Json)) (rest : List Char) :
    EndsNumber (compactMembers false members ++ rest) := by
  cases members with
  | nil => exact fun c hc => by cases hc; decide
  | cons m members =>
    rw [compactMembers]
    exact fun c hc => by cases hc; decide

theorem readItems_cons {c : Char} (hspace : isSpace c = false) (hclose : c ≠ ']') (fuel : Nat)
    (first : Bool) (cs : List Char) :
    readItems (fuel + 1) first ((if first then [] else [',']) ++ c :: cs) = readItem fuel (c :: cs) := by
  cases first with
  | true =>
    rw [if_pos rfl, List.nil_append, readItems, skipSpace_cons hspace]
    simp
  | false =>
    rw [if_neg (by decide), List.singleton_append, readItems, skipSpace_cons rfl]
    simp [skipSpace_cons hspace, hclose]

theorem readMembers_cons (fuel : Nat) (first : Bool) (cs : List Char) :
    readMembers (fuel + 1) first ((if first then [] else [',']) ++ '"' :: cs) =
      readMember fuel ('"' :: cs) := by
  cases first <;> rfl

theorem readItems_compactItems {items : List Json} (h : ∀ v ∈ items, v.ReadsBack) {first : Bool}
    {fuel : Nat} (hfuel : 3 * (compactItems first items).length ≤ fuel) (rest : List Char) :
    readItems fuel first (compactItems first items ++ rest) = (.ofList items, some rest) := by
  induction items generalizing first fuel with
  | nil =>
    rw [compactItems, List.length_singleton] at hfuel
    obtain ⟨fuel, rfl⟩ := Nat.exists_eq_add_of_le' hfuel
    cases first <;> rfl
  | cons v items ih =>
    have hv := h v List.mem_cons_self
    have hpos := hv.length_pos
    have hlast : 0 < (compactItems false items).length := by
      cases items <;> simp [compactItems]
    simp only [compactItems, List.length_append] at hfuel
    obtain ⟨fuel, rfl⟩ : ∃ k, fuel = k + 3 := ⟨fuel - 3, by omega⟩
    have hvalue := hv.reads (by omega : 3 * v.compactChars.length ≤ fuel + 1)
      (endsNumber_compactItems items rest)
    have hrest := ih (fun w hw => h w (List.mem_cons_of_mem v hw))
      (by omega : 3 * (compactItems false items).length ≤ fuel + 1)
    obtain ⟨c, cs, heq, hspace, hclose⟩ := hv.starts
    have hstep : readItems (fuel + 3) first (compactItems first (v :: items) ++ rest) =
        readItem (fuel + 2) (v.compactChars ++ (compactItems false items ++ rest)) := by
      rw [compactItems, List.append_assoc, List.append_assoc, heq, List.cons_append,
        readItems_cons hspace hclose]
    rw [hstep, readItem]
    simp only [hvalue, hrest, Items.ofList]

theorem readMembers_compactMembers {members : List (String × Json)} (h : ∀ m ∈ members, m.2.ReadsBack)
    {first : Bool} {fuel : Nat} (hfuel : 3 * (compactMembers first members).length ≤ fuel)
    (rest : List Char) :
    readMembers fuel first (compactMembers first members ++ rest) = (.ofList members, some rest) := by
  induction members generalizing first fuel with
  | nil =>
    rw [compactMembers, List.length_singleton] at hfuel
    obtain ⟨fuel, rfl⟩ := Nat.exists_eq_add_of_le' hfuel
    cases first <;> rfl
  | cons m members ih =>
    obtain ⟨key, v⟩ := m
    have hv := h (key, v) List.mem_cons_self
    simp only [compactMembers, List.length_append, List.length_cons] at hfuel
    obtain ⟨fuel, rfl⟩ : ∃ k, fuel = k + 3 := ⟨fuel - 3, by omega⟩
    have hvalue := hv.reads (by omega : 3 * v.compactChars.length ≤ fuel + 1)
      (endsNumber_compactMembers members rest)
    have hrest := ih (fun m hm => h m (List.mem_cons_of_mem _ hm))
      (by omega : 3 * (compactMembers false members).length ≤ fuel + 1)
    have hstep : readMembers (fuel + 3) first (compactMembers first ((key, v) :: members) ++ rest) =
        readMember (fuel + 2)
          (quotedChars key ++ ':' :: (v.compactChars ++ (compactMembers false members ++ rest))) := by
      rw [compactMembers]
      simp only [List.append_assoc, List.cons_append, quotedChars_append]
      rw [readMembers_cons]
    rw [hstep, quotedChars_append, readMember]
    simp only [scanString_escaped, skipSpace_cons (c := ':') rfl, hvalue, hrest, Members.ofList]

namespace ReadsBack

theorem array {items : List Json} (h : ∀ v ∈ items, v.ReadsBack) : (Json.array items).ReadsBack where
  starts := ⟨'[', _, rfl, rfl, by decide⟩
  reads := by
    intro fuel rest hfuel _
    rw [compactChars, List.length_cons] at hfuel
    have hitems := readItems_compactItems h (by omega : 3 * (compactItems true items).length ≤ fuel) rest
    rw [compactChars, List.cons_append, readValue, skipSpace_cons rfl]
    simp only [hitems, Document.ofJson]

theorem object {members : List (String × Json)} (h : ∀ m ∈ members, m.2.ReadsBack) :
    (Json.object members).ReadsBack where
  starts := ⟨'\x7b', _, rfl, rfl, by decide⟩
  reads := by
    intro fuel rest hfuel _
    rw [compactChars, List.length_cons] at hfuel
    have hmembers := readMembers_compactMembers h
      (by omega : 3 * (compactMembers true members).length ≤ fuel) rest
    rw [compactChars, List.cons_append, readValue, skipSpace_cons rfl]
    simp only [hmembers, Document.ofJson]

/-- A text that was written for a value holds that value and nothing else. -/
theorem readText_compact {v : Json} (h : v.ReadsBack) (inner : Decoder α) :
    readText inner v.compact = inner (.ofJson v) := by
  have hread : Document.read v.compactChars = (.ofJson v, some []) := by
    have hvalue := h.reads (by omega : _ ≤ 3 * v.compactChars.length + 2 + 1) endsNumber_nil
    rwa [List.append_nil] at hvalue
  unfold readText compact
  rw [String.toList_ofList, hread]
  cases hinner : inner (.ofJson v) with
  | error e => simp only [hinner]; rfl
  | ok a => simp only [hinner]; rfl

end ReadsBack

end LadderLogic.Json
