import LadderLogic.Proofs.Json.Record
import LadderLogic.Proofs.Pattern.Finding

/-! The texts of the confidences that rules report. A level is read back from its text, although it is read by a
division of rounded numbers. -/
namespace LadderLogic

/-- The digits of hundredths behind the point. -/
def Confidence.fraction (n : Nat) : List Char :=
  if n % 10 = 0 then Nat.toDigits 10 (n / 10) else Nat.toDigits 10 n

open Confidence

theorem Pattern.isLevel_of_mem_detect {v : View} {p : Pattern} (h : p ∈ detect v) : p.confidence.IsLevel := by
  obtain ⟨kind, -, hfind⟩ := List.mem_filterMap.1 h
  obtain ⟨f, hf, rfl⟩ := Option.map_eq_some_iff.1 hfind
  exact (PatternKind.canFind_rule hf).isLevel

theorem Binary64.divTenPower_of_le {k : Nat} (h : k ≤ greatestTenPower) (x : Binary64) :
    x.divTenPower k = (tenPower k).bind x.div := by
  rw [divTenPower, if_pos h]
  rfl

namespace Json

/-- A zero, a point and digits make a number, up to what cannot belong to it. -/
theorem EndsNumber.scanNumeral_fraction {rest : List Char} (h : EndsNumber rest) {ds : List Char}
    (hne : ds ≠ []) (hds : ∀ c ∈ ds, c.isDigit = true) :
    scanNumeral false ('0' :: '.' :: (ds ++ rest)) = .ok (⟨false, ['0'], ds, none⟩, rest) := by
  have hexponent : scanExponent ⟨false, ['0'], ds, none⟩ rest = .ok (⟨false, ['0'], ds, none⟩, rest) := by
    cases rest with
    | nil => rfl
    | cons c rest =>
      obtain ⟨-, -, he, hE⟩ := h c rfl
      simp [scanExponent, he, hE]
  simp [scanNumeral, Json.scanFraction, h.takeWhile_append hds, h.dropWhile_append hds, hne, hexponent]

/-- Its value is that of the digits, divided by the power of ten that they stand behind. -/
theorem value_fraction {ds : List Char} {m : Nat} {x : Binary64} (hne : ds ≠ [])
    (hlength : ds.length ≤ Binary64.greatestTenPower) (hm : significand 0 ds = (m, []))
    (hx : ((Binary64.ofRatio false m 1).bind fun y => (Binary64.tenPower ds.length).bind y.div) = some x) :
    Numeral.value ⟨false, ['0'], ds, none⟩ = .ok (.real x) := by
  have hpos : 0 < ds.length := List.length_pos_iff.2 hne
  have htens : -(ds.length : Int) < 0 := by omega
  have hdecimal : Binary64.ofDecimal false m (-(ds.length : Int)) = some x := by
    unfold Binary64.ofDecimal
    simp only [htens, if_true, Int.neg_neg, Int.toNat_natCast, Binary64.divTenPower_of_le hlength]
    exact hx
  have hzero : significand 0 ['0'] = (0, []) := rfl
  simp [Numeral.value, hzero, hm, hne, hdecimal]

theorem value_confidence : ∀ n ∈ levels,
    Numeral.value ⟨false, ['0'], fraction n, none⟩ = .ok (.real (Confidence.percent n)) := by
  have hdigits : ∀ n ∈ levels, fraction n ≠ [] ∧ (fraction n).length ≤ Binary64.greatestTenPower ∧
      (significand 0 (fraction n)).2 = [] := by decide
  have hvalue : ∀ n ∈ levels, ((Binary64.ofRatio false (significand 0 (fraction n)).1 1).bind fun y =>
      (Binary64.tenPower (fraction n).length).bind y.div) = some (Confidence.percent n) := by decide +kernel
  intro n hn
  obtain ⟨hne, hlength, hrest⟩ := hdigits n hn
  exact value_fraction hne hlength (Prod.ext rfl hrest) (hvalue n hn)

/-- A level is read back from its text. -/
theorem Decoder.Reads.confidence {c : Confidence} (h : c.IsLevel) :
    Decoder.real.Reads (.number (.real c)) c := by
  obtain ⟨n, hn, rfl⟩ := h
  have htext : ∀ n ∈ levels, (Confidence.percent n).render.toList = '0' :: '.' :: fraction n := by
    decide +kernel
  have hdigits : ∀ n ∈ levels, fraction n ≠ [] ∧ (fraction n).all Char.isDigit = true := by decide
  have hchars : (Json.number (.real (Confidence.percent n))).compactChars = '0' :: '.' :: fraction n := by
    rw [compactChars, Number.render, htext n hn]
  refine ⟨⟨⟨'0', _, hchars, rfl, by decide⟩, ?_⟩, rfl⟩
  intro fuel rest _ hrest
  rw [hchars, List.cons_append, List.cons_append, readValue_of_isDigit rfl, numeral,
    hrest.scanNumeral_fraction (hdigits n hn).1 (List.all_eq_true.1 (hdigits n hn).2)]
  simp only [value_confidence n hn, Document.ofJson]

end Json

end LadderLogic
