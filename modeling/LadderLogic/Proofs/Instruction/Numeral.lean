import LadderLogic.Proofs.Instruction.Operand

/-! The grammar of numbers, and the kinds of operands. Taking as many digits as there are is enough, because no
part of a number can begin with a digit where the part before it could go on with one. -/
namespace LadderLogic.Operand
open Text (isDecimalDigit trimChars isBlank)

/-- Decimal digits of any script, or nothing. -/
def Digits (cs : List Char) : Prop :=
  ∀ c ∈ cs, isDecimalDigit c

inductive Sign : List Char → Prop
  | none : Sign []
  | plus : Sign ['+']
  | minus : Sign ['-']

/-- Digits with an optional point behind or between them, or a point and digits. -/
inductive Mantissa : List Char → Prop
  | integer {digits : List Char} : Digits digits → digits ≠ [] → Mantissa digits
  | decimal {digits fraction : List Char} :
      Digits digits → digits ≠ [] → Digits fraction → Mantissa (digits ++ '.' :: fraction)
  | fraction {fraction : List Char} : Digits fraction → fraction ≠ [] → Mantissa ('.' :: fraction)

/-- Nothing, or `e`, an optional sign and digits. -/
inductive Exponent : List Char → Prop
  | none : Exponent []
  | marked {c : Char} {sign digits : List Char} :
      c = 'e' ∨ c = 'E' → Sign sign → Digits digits → digits ≠ [] → Exponent (c :: (sign ++ digits))

inductive Numeral : List Char → Prop
  | parts {sign mantissa exponent : List Char} :
      Sign sign → Mantissa mantissa → Exponent exponent → Numeral (sign ++ (mantissa ++ exponent))

theorem not_isDecimalDigit_of_mem {c : Char} (h : c ∈ ['.', 'e', 'E', '+', '-', '?', '\'', '"']) :
    isDecimalDigit c = false := by
  have hall : ['.', 'e', 'E', '+', '-', '?', '\'', '"'].all (fun c => !isDecimalDigit c) := by decide
  simpa using List.all_eq_true.1 hall c h

theorem Digits.takeWhile_append {digits : List Char} (h : Digits digits) {rest : List Char}
    (hrest : ∀ c ∈ rest.head?, isDecimalDigit c = false) :
    (digits ++ rest).takeWhile isDecimalDigit = digits ∧ (digits ++ rest).dropWhile isDecimalDigit = rest := by
  rw [List.takeWhile_append_of_pos h, List.dropWhile_append_of_pos h]
  cases rest with
  | nil => simp
  | cons c rest => simp [hrest c rfl]

theorem digits_takeWhile (cs : List Char) : Digits (cs.takeWhile isDecimalDigit) :=
  fun _ hc => List.mem_takeWhile_imp hc

theorem exists_sign (cs : List Char) : ∃ sign, Sign sign ∧ cs = sign ++ dropSign cs := by
  unfold dropSign
  split
  · exact ⟨['+'], .plus, rfl⟩
  · exact ⟨['-'], .minus, rfl⟩
  · exact ⟨[], .none, rfl⟩

theorem Sign.dropSign_append {sign : List Char} (h : Sign sign) {rest : List Char}
    (hrest : ∀ c ∈ rest.head?, c ≠ '+' ∧ c ≠ '-') : dropSign (sign ++ rest) = rest := by
  cases h with
  | plus => rfl
  | minus => rfl
  | none =>
    cases rest with
    | nil => rfl
    | cons c rest =>
      obtain ⟨hplus, hminus⟩ := hrest c rfl
      unfold dropSign
      split <;> simp_all

theorem Digits.head_ne_sign {digits : List Char} (h : Digits digits) :
    ∀ c ∈ digits.head?, c ≠ '+' ∧ c ≠ '-' := by
  intro c hc
  have hdigit := h c (List.mem_of_head? hc)
  constructor
  · rintro rfl
    cases hdigit.symm.trans (not_isDecimalDigit_of_mem (by simp))
  · rintro rfl
    cases hdigit.symm.trans (not_isDecimalDigit_of_mem (by simp))

theorem isExponent_iff {cs : List Char} : isExponent cs = true ↔ Exponent cs := by
  constructor
  · intro h
    cases cs with
    | nil => exact .none
    | cons c cs =>
      simp only [isExponent, Bool.and_eq_true, Bool.or_eq_true, beq_iff_eq, Bool.not_eq_true',
        List.isEmpty_eq_false_iff, List.all_eq_true] at h
      obtain ⟨⟨hmark, hne⟩, hdigits⟩ := h
      obtain ⟨sign, hsign, hcs⟩ := exists_sign cs
      rw [hcs]
      exact .marked hmark hsign hdigits hne
  · intro h
    cases h with
    | none => rfl
    | marked hmark hsign hdigits hne =>
      have hdrop := hsign.dropSign_append hdigits.head_ne_sign
      simpa [isExponent, hdrop, hne] using ⟨hmark, hdigits⟩

theorem Exponent.head_not_digit {cs : List Char} (h : Exponent cs) :
    ∀ c ∈ cs.head?, isDecimalDigit c = false := by
  intro c hc
  cases h with
  | none => cases hc
  | marked hmark _ _ _ =>
    obtain rfl : _ = c := Option.some.inj hc
    rcases hmark with rfl | rfl
    · exact not_isDecimalDigit_of_mem (by simp)
    · exact not_isDecimalDigit_of_mem (by simp)

theorem exists_mantissa_of_isUnsigned {cs : List Char} (h : isUnsigned cs = true) :
    ∃ mantissa exponent, cs = mantissa ++ exponent ∧ Mantissa mantissa ∧ Exponent exponent := by
  have hcs := List.takeWhile_append_dropWhile (p := isDecimalDigit) (l := cs)
  unfold isUnsigned at h
  split at h
  · split at h
    · next fraction _ =>
      obtain ⟨hne, hexponent⟩ := Bool.and_eq_true_iff.1 h
      have hsplit := List.takeWhile_append_dropWhile (p := isDecimalDigit) (l := fraction)
      refine ⟨_, _, ?_, .fraction (digits_takeWhile fraction) (by simpa using hne), isExponent_iff.1 hexponent⟩
      rw [List.cons_append, hsplit]
    · cases h
  · next hne =>
    have hdigits : cs.takeWhile isDecimalDigit ≠ [] := by simpa using hne
    split at h
    · next fraction hrest =>
      have hsplit := List.takeWhile_append_dropWhile (p := isDecimalDigit) (l := fraction)
      refine ⟨_, _, ?_, .decimal (digits_takeWhile cs) hdigits (digits_takeWhile fraction), isExponent_iff.1 h⟩
      rw [List.append_assoc, List.cons_append, hsplit, ← hrest, hcs]
    · exact ⟨_, _, hcs.symm, .integer (digits_takeWhile cs) hdigits, isExponent_iff.1 h⟩

theorem Mantissa.isUnsigned_append {mantissa exponent : List Char} (h : Mantissa mantissa)
    (hexponent : Exponent exponent) : isUnsigned (mantissa ++ exponent) = true := by
  have hlast := isExponent_iff.2 hexponent
  have hpoint : isDecimalDigit '.' = false := not_isDecimalDigit_of_mem (by simp)
  cases h with
  | integer hdigits hne =>
    obtain ⟨htake, hdrop⟩ := hdigits.takeWhile_append hexponent.head_not_digit
    unfold isUnsigned
    rw [htake, hdrop, if_neg (by simpa using hne)]
    split
    · -- An exponent does not begin with a point.
      cases hexponent with
      | marked hmark _ _ _ => rcases hmark with hmark | hmark <;> cases hmark
    · exact hlast
  | @decimal digits fraction hdigits hne hfraction =>
    have hdot : ∀ c ∈ ('.' :: (fraction ++ exponent)).head?, isDecimalDigit c = false := by
      simpa using hpoint
    obtain ⟨htake, hdrop⟩ := hdigits.takeWhile_append hdot
    obtain ⟨-, hrest⟩ := hfraction.takeWhile_append hexponent.head_not_digit
    unfold isUnsigned
    rw [List.append_assoc, List.cons_append, htake, hdrop, if_neg (by simpa using hne)]
    simp only [hrest, hlast]
  | fraction hfraction hne =>
    obtain ⟨htake, hdrop⟩ := hfraction.takeWhile_append hexponent.head_not_digit
    simp [isUnsigned, hpoint, htake, hdrop, hne, hlast]

theorem Mantissa.head_ne_sign {mantissa : List Char} (h : Mantissa mantissa) (rest : List Char) :
    ∀ c ∈ (mantissa ++ rest).head?, c ≠ '+' ∧ c ≠ '-' := by
  cases h with
  | integer hdigits hne =>
    rw [List.head?_append_of_ne_nil _ hne]
    exact hdigits.head_ne_sign
  | decimal hdigits hne _ =>
    rw [List.append_assoc, List.head?_append_of_ne_nil _ hne]
    exact hdigits.head_ne_sign
  | fraction _ _ => simp

theorem isNumericChars_iff {cs : List Char} : isNumericChars cs = true ↔ Numeral cs := by
  constructor
  · intro h
    obtain ⟨sign, hsign, hcs⟩ := exists_sign cs
    obtain ⟨mantissa, exponent, hrest, hmantissa, hexponent⟩ := exists_mantissa_of_isUnsigned h
    rw [hcs, hrest]
    exact .parts hsign hmantissa hexponent
  · rintro ⟨hsign, hmantissa, hexponent⟩
    rw [isNumericChars, hsign.dropSign_append (hmantissa.head_ne_sign _)]
    exact hmantissa.isUnsigned_append hexponent

instance : DecidablePred Numeral := fun _ =>
  decidable_of_iff _ isNumericChars_iff

/-- What an operand can be. -/
inductive Kind where
  | blank
  | placeholder
  | quoted
  | number
  | tag
deriving DecidableEq

namespace Kind

/-- The operand is of this kind. -/
def Describes (s : String) : Kind → Prop
  | .blank => Text.isBlankText s
  | .placeholder => Text.trim s = "?"
  | .quoted => ∃ rest, trimChars s.toList = '\'' :: rest ∨ trimChars s.toList = '"' :: rest
  | .number => isNumeric s
  | .tag => isTag s

/-- The kind of an operand without blanks around it. -/
def ofChars : List Char → Kind
  | [] => .blank
  | ['?'] => .placeholder
  | '\'' :: _ => .quoted
  | '"' :: _ => .quoted
  | cs => if isNumericChars cs then .number else .tag

end Kind

theorem isNumericChars_cons_of_mem {c : Char} (h : c ∈ ['?', '\'', '"']) (cs : List Char) :
    isNumericChars (c :: cs) = false := by
  have hdigit : isDecimalDigit c = false := not_isDecimalDigit_of_mem (by simp at h ⊢; tauto)
  simp only [List.mem_cons, List.not_mem_nil, or_false] at h
  rcases h with rfl | rfl | rfl <;> simp [isNumericChars, dropSign, isUnsigned, hdigit]

namespace Kind

theorem ofChars_eq_blank_iff {cs : List Char} : ofChars cs = .blank ↔ cs = [] := by
  unfold ofChars
  split <;> simp_all [apply_ite (· = Kind.blank)]

theorem ofChars_eq_placeholder_iff {cs : List Char} : ofChars cs = .placeholder ↔ cs = ['?'] := by
  unfold ofChars
  split <;> simp_all [apply_ite (· = Kind.placeholder)]

theorem ofChars_eq_quoted_iff {cs : List Char} :
    ofChars cs = .quoted ↔ ∃ rest, cs = '\'' :: rest ∨ cs = '"' :: rest := by
  unfold ofChars
  split <;> simp_all [apply_ite (· = Kind.quoted)]

theorem ofChars_eq_number_iff {cs : List Char} : ofChars cs = .number ↔ isNumericChars cs = true := by
  unfold ofChars
  split
  · decide
  · simp [isNumericChars_cons_of_mem]
  · simp [isNumericChars_cons_of_mem]
  · simp [isNumericChars_cons_of_mem]
  · split <;> simp_all

theorem ofChars_eq_tag_iff {cs : List Char} : ofChars cs = .tag ↔ isTagChars cs = true := by
  unfold ofChars isTagChars
  split <;> simp [apply_ite (· = Kind.tag)]

/-- An operand is of one kind only. -/
theorem describes_iff (s : String) (kind : Kind) :
    kind.Describes s ↔ ofChars (trimChars s.toList) = kind := by
  cases kind with
  | blank =>
    rw [ofChars_eq_blank_iff, Text.trimChars_eq_nil_iff]
    rfl
  | placeholder =>
    rw [ofChars_eq_placeholder_iff, Describes, Text.trim, ← String.toList_inj, String.toList_ofList]
    rfl
  | quoted => rw [ofChars_eq_quoted_iff, Describes]
  | number =>
    rw [ofChars_eq_number_iff]
    rfl
  | tag =>
    rw [ofChars_eq_tag_iff]
    rfl

end Kind

/-- A number is what the grammar says, with blanks around it or not. Blanks do not change whether an
operand names a tag. Every operand is exactly one of the following: blank, the placeholder, a quoted
text, a number, the name of a tag. -/
theorem isNumeric_iff_and_existsUnique_kind (s : String) :
    (isNumeric s = true ↔ Numeral (trimChars s.toList)) ∧ isTag s = isTag (Text.trim s) ∧
      ∃! kind : Kind, kind.Describes s := by
  refine ⟨isNumericChars_iff, (isTag_trim s).symm, Kind.ofChars (trimChars s.toList), ?_, ?_⟩
  · exact (Kind.describes_iff s _).2 rfl
  · intro kind h
    exact ((Kind.describes_iff s kind).1 h).symm

-- A point needs a digit on one side, and an exponent needs digits.
example : (∀ s ∈ ["+1.5", "3.", "-.25", "2.E-04", "\u0663e9"], Numeral s.toList) ∧
    ∀ s ∈ ["", ".", "e5", "1e", "1e+", "--1", "1.2.3", "1 "], ¬Numeral s.toList := by
  decide

end LadderLogic.Operand
