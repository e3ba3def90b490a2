import LadderLogic.Context.Purpose

/-! Vocabularies that contain other ones. A scanner is a guard and no word of safety. -/
namespace LadderLogic

namespace Vocabulary

theorem recognizes_eq_true_iff {v : Vocabulary} {name : String} :
    v.recognizes name = true ↔ ∃ t ∈ v, t.occursIn name.toList = true := by
  unfold recognizes
  exact List.any_eq_true

theorem recognizes_append (v w : Vocabulary) (name : String) :
    recognizes (v ++ w) name = (v.recognizes name || w.recognizes name) :=
  List.any_append

theorem recognizes_of_subset {v w : Vocabulary} (h : v ⊆ w) {name : String} (hv : v.recognizes name = true) :
    w.recognizes name = true := by
  rw [recognizes_eq_true_iff] at hv ⊢
  obtain ⟨t, ht, hoccurs⟩ := hv
  exact ⟨t, h ht, hoccurs⟩

theorem emergencyStop_subset_safety : emergencyStop ⊆ safety := by
  decide

theorem gate_subset_safety : gate ⊆ safety := by
  decide

theorem guard_subset_safety_append : guard ⊆ safety ++ words ["SCANNER"] := by
  decide

theorem scanner_subset_guard : words ["SCANNER"] ⊆ guard := by
  decide

end Vocabulary

open Vocabulary (words)

namespace Purpose

/-- A safety input has a word of safety in its name unless it is a scanner. -/
theorem safety_or_scanner_of_isSafetyInput {tag : String} (h : isSafetyInput tag = true) :
    Vocabulary.safety.recognizes tag = true ∨ (words ["SCANNER"]).recognizes tag = true := by
  simp only [isSafetyInput, Bool.or_eq_true] at h
  obtain (hstop | hguard) | hgate := h
  · exact .inl (Vocabulary.recognizes_of_subset Vocabulary.emergencyStop_subset_safety hstop)
  · have happend := Vocabulary.recognizes_of_subset Vocabulary.guard_subset_safety_append hguard
    rwa [Vocabulary.recognizes_append, Bool.or_eq_true] at happend
  · exact .inl (Vocabulary.recognizes_of_subset Vocabulary.gate_subset_safety hgate)

theorem isSafetyInput_of_scanner {tag : String} (h : (words ["SCANNER"]).recognizes tag = true) :
    isSafetyInput tag = true := by
  have hguard := Vocabulary.recognizes_of_subset Vocabulary.scanner_subset_guard h
  simp only [isSafetyInput, hguard, Bool.or_true, Bool.true_or]

end Purpose

namespace Role

/-- A description counts only where the name tells nothing. -/
theorem ofTag_of_ofName_ne_unknown {name : String} (h : ofName name ≠ .unknown)
    (description : Option String) : ofTag name description = ofName name := by
  unfold ofTag
  split
  · next hunknown => exact absurd hunknown h
  · rfl

theorem vocabularies_eq_cons :
    vocabularies = (Vocabulary.safety ++ words ["SAFE"], .safety) :: vocabularies.tail := rfl

theorem ofName_of_safety {name : String} (h : Vocabulary.safety.recognizes (Text.trim name) = true) :
    ofName name = .safety := by
  have hfirst : Vocabulary.recognizes (Vocabulary.safety ++ words ["SAFE"]) (Text.trim name) = true := by
    rw [Vocabulary.recognizes_append, h, Bool.true_or]
  unfold ofName
  rw [vocabularies_eq_cons, List.find?_cons]
  simp only [hfirst]

theorem ofTag_of_safety {name : String} (h : Vocabulary.safety.recognizes (Text.trim name) = true)
    (description : Option String) : ofTag name description = .safety := by
  unfold ofTag
  rw [ofName_of_safety h]

end Role

end LadderLogic
