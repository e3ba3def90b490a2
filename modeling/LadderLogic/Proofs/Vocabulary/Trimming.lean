import LadderLogic.Proofs.Rung.Separation
import LadderLogic.Proofs.Vocabulary.Occurrence

/-! Terms in names with blanks around them. Trimming a name hides none of its words. It may well show one:
behind a blank no word of its own begins. -/
namespace LadderLogic

namespace Text

theorem fold_of_isBlank {c : Char} (h : isBlank c = true) : fold c = c := by
  simp only [isBlank, Bool.or_eq_true, Bool.and_eq_true, decide_eq_true_eq, beq_iff_eq] at h
  have hlower : ¬('a'.val ≤ c.val ∧ c.val ≤ 'z'.val) := by
    rw [UInt32.le_iff_toNat_le, UInt32.le_iff_toNat_le]
    change ¬(97 ≤ c.toNat ∧ c.toNat ≤ 122)
    omega
  have hlong : (c.toNat == 0x17F) = false := beq_eq_false_iff_ne.2 (by omega)
  have hkelvin : (c.toNat == 0x212A) = false := beq_eq_false_iff_ne.2 (by omega)
  rw [fold, hlong, hkelvin]
  exact dif_neg hlower

theorem isDecimalDigit_of_isBlank {c : Char} (h : isBlank c = true) : isDecimalDigit c = false := by
  simp only [isBlank, Bool.or_eq_true, Bool.and_eq_true, decide_eq_true_eq, beq_iff_eq] at h
  rw [isDecimalDigit, List.any_eq_false]
  intro first hfirst
  rw [Bool.and_eq_true, decide_eq_true_eq, decide_eq_true_eq]
  -- No script has a digit in the ranges of the blanks.
  have hapart : ∀ z ∈ decimalZeros, z = 0x30 ∨ (0x660 ≤ z ∧ z ≤ 0x1100) ∨
      (0x17E0 ≤ z ∧ z ≤ 0x1C50) ∨ 0xA620 ≤ z := by decide
  have := hapart first hfirst
  omega

end Text

namespace Vocabulary

open Text (isBlank trimChars fold)

namespace Glyph

theorem behind_concat {g : Glyph} {c : Char} (hc : g.takes c = false) (cs : List Char) :
    g.behind (cs ++ [c]) = g.behind cs ++ [c] := by
  cases g with
  | digits =>
    have hlast : [c].dropWhile Text.isDecimalDigit = [c] :=
      List.dropWhile_cons_of_neg (Bool.eq_false_iff.1 hc)
    rw [behind, List.dropWhile_append, hlast]
    split
    · next hempty => rw [behind, List.isEmpty_iff.1 hempty, List.nil_append]
    · rfl
  | _ => rfl

/-- A character that the glyph does not take may follow what the glyph looks at. -/
theorem take?_concat {g : Glyph} {c : Char} (hc : g.takes c = false) (cs : List Char) :
    g.take? (cs ++ [c]) = (g.take? cs).map (· ++ [c]) := by
  cases cs with
  | nil =>
    rw [List.nil_append, take?_cons, hc, take?_nil]
    cases g.isNeeded <;> rfl
  | cons d cs =>
    rw [List.cons_append, take?_cons, take?_cons, behind_concat hc]
    cases g.takes d <;> cases g.isNeeded <;> rfl

theorem takeAll?_concat {gs : List Glyph} {c : Char} (hc : ∀ g ∈ gs, g.takes c = false) (cs : List Char) :
    takeAll? gs (cs ++ [c]) = (takeAll? gs cs).map (· ++ [c]) := by
  induction gs generalizing cs with
  | nil => rfl
  | cons g gs ih =>
    rw [List.forall_mem_cons] at hc
    rw [takeAll?, takeAll?, take?_concat hc.1]
    cases g.take? cs with
    | none => rfl
    | some rest => exact ih hc.2 rest

/-- No blank is among the characters of the glyph. -/
def isSolid : Glyph → Bool
  | .char g => !isBlank g
  | .exactly g => !isBlank g
  | .oneOf gs => gs.all (!isBlank ·)
  | .optional gs => gs.all (!isBlank ·)
  | .digits => true

theorem takes_of_isBlank {g : Glyph} (hg : g.isSolid = true) {c : Char} (hc : isBlank c = true) :
    g.takes c = false := by
  have hne : ∀ d, (!isBlank d) = true → c ≠ d := by
    rintro _ hd rfl
    rw [hc] at hd
    cases hd
  cases g with
  | char d =>
    rw [takes, Text.fold_of_isBlank hc]
    exact beq_false_of_ne (hne d hg)
  | exactly d => exact beq_false_of_ne (hne d hg)
  | oneOf gs =>
    rw [takes, Text.fold_of_isBlank hc]
    simpa using fun hmem => hne c (List.all_eq_true.1 hg c hmem) rfl
  | optional gs => simpa [takes] using fun hmem => hne c (List.all_eq_true.1 hg c hmem) rfl
  | digits => exact Text.isDecimalDigit_of_isBlank hc

end Glyph

namespace Term

/-- No blank is in the term, and it needs a character to begin with. -/
def isSolid (t : Term) : Bool :=
  t.glyphs.all Glyph.isSolid && t.glyphs.head?.any Glyph.isNeeded

/-- Where a term stands behind something, it may also stand at the start. -/
theorem occursFrom_none {t : Term} {before : Option Char} {cs : List Char} (h : t.occursFrom before cs = true) :
    t.occursFrom none cs = true := by
  have hadmits : t.left.admits none = true := by cases t.left <;> rfl
  have hstands : ∀ cs, t.standsAt before cs = true → t.standsAt none cs = true := by
    intro cs hbefore
    rw [standsAt, Bool.and_eq_true] at hbefore ⊢
    exact ⟨hadmits, hbefore.2⟩
  cases cs with
  | nil => exact hstands [] h
  | cons c cs =>
    rw [occursFrom, Bool.or_eq_true] at h ⊢
    exact h.imp_left (hstands (c :: cs))

section Solid
variable {t : Term} (h : t.isSolid = true)
include h

theorem takes_of_isSolid {c : Char} (hc : isBlank c = true) : ∀ g ∈ t.glyphs, g.takes c = false := by
  rw [isSolid, Bool.and_eq_true, List.all_eq_true] at h
  exact fun g hg => Glyph.takes_of_isBlank (h.1 g hg) hc

theorem exists_cons_of_isSolid : ∃ g gs, t.glyphs = g :: gs ∧ g.isNeeded = true := by
  rw [isSolid, Bool.and_eq_true] at h
  cases hglyphs : t.glyphs with
  | nil =>
    rw [hglyphs] at h
    cases h.2
  | cons g gs =>
    rw [hglyphs] at h
    exact ⟨g, gs, rfl, h.2⟩

theorem not_standsAt_nil (before : Option Char) : t.standsAt before [] = false := by
  obtain ⟨g, gs, hglyphs, hneeded⟩ := exists_cons_of_isSolid h
  rw [standsAt, hglyphs, Glyph.takeAll?, Glyph.take?_nil, if_pos hneeded]
  exact Bool.and_false _

theorem not_standsAt_of_isBlank {c : Char} (hc : isBlank c = true) (before : Option Char) (cs : List Char) :
    t.standsAt before (c :: cs) = false := by
  obtain ⟨g, gs, hglyphs, hneeded⟩ := exists_cons_of_isSolid h
  have hg : g.takes c = false := takes_of_isSolid h hc g (by simp [hglyphs])
  rw [standsAt, hglyphs, Glyph.takeAll?, Glyph.take?_cons, hg, hneeded]
  exact Bool.and_false _

/-- A blank behind a term may be dropped: what may follow the term may also be the end. -/
theorem standsAt_of_concat {c : Char} (hc : isBlank c = true) {before : Option Char} {cs : List Char}
    (hstands : t.standsAt before (cs ++ [c]) = true) : t.standsAt before cs = true := by
  rw [standsAt, Glyph.takeAll?_concat (takes_of_isSolid h hc), Bool.and_eq_true] at hstands
  rw [standsAt, Bool.and_eq_true]
  refine ⟨hstands.1, ?_⟩
  cases hrest : Glyph.takeAll? t.glyphs cs with
  | none =>
    rw [hrest] at hstands
    cases hstands.2
  | some rest =>
    rw [hrest] at hstands
    cases rest with
    | nil => cases t.right <;> rfl
    | cons d rest => exact hstands.2

theorem occursFrom_of_concat {c : Char} (hc : isBlank c = true) {before : Option Char} {cs : List Char}
    (hoccurs : t.occursFrom before (cs ++ [c]) = true) : t.occursFrom before cs = true := by
  induction cs generalizing before with
  | nil =>
    rw [List.nil_append, occursFrom, occursFrom, not_standsAt_of_isBlank h hc, not_standsAt_nil h] at hoccurs
    cases hoccurs
  | cons d cs ih =>
    rw [List.cons_append, occursFrom, Bool.or_eq_true] at hoccurs
    rw [occursFrom, Bool.or_eq_true]
    exact hoccurs.imp (standsAt_of_concat h hc) ih

/-- A blank before a term may be dropped: the term may also stand at the start. -/
theorem occursFrom_of_cons {c : Char} (hc : isBlank c = true) {before : Option Char} {cs : List Char}
    (hoccurs : t.occursFrom before (c :: cs) = true) : t.occursFrom none cs = true := by
  rw [occursFrom, not_standsAt_of_isBlank h hc, Bool.false_or] at hoccurs
  exact occursFrom_none hoccurs

theorem occursIn_of_blank_append {front cs : List Char} (hfront : ∀ c ∈ front, isBlank c = true)
    (hoccurs : t.occursIn (front ++ cs) = true) : t.occursIn cs = true := by
  induction front with
  | nil => exact hoccurs
  | cons c front ih =>
    rw [List.forall_mem_cons] at hfront
    exact ih hfront.2 (occursFrom_of_cons h hfront.1 hoccurs)

theorem occursIn_of_append_blank {cs back : List Char} (hback : ∀ c ∈ back, isBlank c = true)
    (hoccurs : t.occursIn (cs ++ back) = true) : t.occursIn cs = true := by
  induction back using List.reverseRecOn with
  | nil => rwa [List.append_nil] at hoccurs
  | append_singleton back c ih =>
    rw [List.forall_mem_append, List.forall_mem_singleton] at hback
    rw [← List.append_assoc] at hoccurs
    exact ih hback.1 (occursFrom_of_concat h hback.2 hoccurs)

theorem occursIn_trimChars {cs : List Char} (hoccurs : t.occursIn cs = true) :
    t.occursIn (trimChars cs) = true := by
  obtain ⟨front, back, hcs, hfront, hback⟩ := Text.exists_blank_append_trimChars cs
  rw [hcs] at hoccurs
  exact occursIn_of_append_blank h hback (occursIn_of_blank_append h hfront hoccurs)

end Solid

end Term

/-- What a vocabulary of such terms finds in a name it finds in the trimmed name. -/
theorem recognizes_trim {v : Vocabulary} (hv : ∀ t ∈ v, t.isSolid = true) {name : String}
    (h : v.recognizes name = true) : v.recognizes (Text.trim name) = true := by
  rw [recognizes_eq_true_iff] at h ⊢
  obtain ⟨t, ht, hoccurs⟩ := h
  rw [Text.trim, String.toList_ofList]
  exact ⟨t, ht, Term.occursIn_trimChars (hv t ht) hoccurs⟩

end Vocabulary

end LadderLogic
