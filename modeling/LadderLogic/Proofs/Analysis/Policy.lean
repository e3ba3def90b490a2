import LadderLogic.Proofs.Analysis.Contexts
import LadderLogic.Proofs.Context.Safety

/-! How far the settings of an analysis reach. A setting can cut a list of key points and call a rung a status
rung; it does not touch safety. -/
namespace LadderLogic

/-- A threshold that the outputs do not reach leaves the rest of the cascade. -/
theorem Category.ofView_eq_ite (v : View) (patterns : List Pattern) (graph : TagGraph) (statusOutputs : Nat) :
    ofView v patterns graph statusOutputs =
      if Pattern.fired patterns .statusMonitoring = true ∧ statusOutputs ≤ v.outputs.length
      then .statusMonitoring else ofView v patterns graph (v.outputs.length + 1) := by
  have hreach : ¬v.outputs.length + 1 ≤ v.outputs.length := by omega
  unfold ofView
  simp only [hreach, decide_false, Bool.and_false, Bool.false_eq_true, if_false, Bool.and_eq_true,
    decide_eq_true_eq]

/-- Two thresholds give a rung two categories only if it reports status and has as many outputs as
the lower one asks for and fewer than the higher one does. -/
theorem Category.ofView_eq_or_between (v : View) (patterns : List Pattern) (graph : TagGraph) (m n : Nat) :
    ofView v patterns graph m = ofView v patterns graph n ∨
      (ofView v patterns graph m = .statusMonitoring ∨ ofView v patterns graph n = .statusMonitoring) ∧
        Pattern.fired patterns .statusMonitoring = true ∧
          min m n ≤ v.outputs.length ∧ v.outputs.length < max m n := by
  have hm := ofView_eq_ite v patterns graph m
  have hn := ofView_eq_ite v patterns graph n
  by_cases hfired : Pattern.fired patterns .statusMonitoring = true
  · by_cases hmreach : m ≤ v.outputs.length
    · rw [if_pos ⟨hfired, hmreach⟩] at hm
      by_cases hnreach : n ≤ v.outputs.length
      · rw [if_pos ⟨hfired, hnreach⟩] at hn
        exact .inl (hm.trans hn.symm)
      · exact .inr ⟨.inl hm, hfired, by omega, by omega⟩
    · by_cases hnreach : n ≤ v.outputs.length
      · rw [if_pos ⟨hfired, hnreach⟩] at hn
        exact .inr ⟨.inr hn, hfired, by omega, by omega⟩
      · rw [if_neg fun h => hmreach h.2] at hm
        rw [if_neg fun h => hnreach h.2] at hn
        exact .inl (hm.trans hn.symm)
  · rw [if_neg fun h => hfired h.1] at hm hn
    exact .inl (hm.trans hn.symm)

namespace Context

/-- What two settings can make of one rung. -/
structure DiffersByPolicy (s t : Settings) (c d : Context) : Prop where
  same : d = { c with
    category := d.category
    purpose := d.purpose
    purposeDetail := { c.purposeDetail with template := d.purposeDetail.template }
    keyPoints := d.keyPoints }
  keyPoints : (s.maxKeyPoints ≤ t.maxKeyPoints ∧ c.keyPoints <+: d.keyPoints) ∨
    (t.maxKeyPoints ≤ s.maxKeyPoints ∧ d.keyPoints <+: c.keyPoints)
  status : (c.category = d.category ∧ c.purposeDetail.template = d.purposeDetail.template ∧
      c.purpose = d.purpose) ∨
    (c.category = .statusMonitoring ∨ d.category = .statusMonitoring) ∧
      Pattern.fired c.patterns .statusMonitoring = true ∧
      min s.statusOverrideMinOutputs.toNat t.statusOverrideMinOutputs.toNat ≤ c.outputs.length ∧
      c.outputs.length < max s.statusOverrideMinOutputs.toNat t.statusOverrideMinOutputs.toNat

theorem differsByPolicy_ofView (v : View) (graph : TagGraph) (s t : Settings) :
    (ofView v graph s).DiffersByPolicy s t (ofView v graph t) := by
  refine ⟨?_, ?_, ?_⟩
  · have hrelevant : (ofView v graph t).safetyRelevant = (ofView v graph s).safetyRelevant := by
      rw [Bool.eq_iff_iff, safetyRelevant_iff, safetyRelevant_iff]
    calc ofView v graph t
        = { ofView v graph t with safetyRelevant := (ofView v graph s).safetyRelevant } := by rw [← hrelevant]
      _ = _ := rfl
  · -- No key point asks for the template, so both lists are cut from one.
    let points := KeyPoint.all v (Pattern.detect v) graph (ofView v graph s).purposeDetail
      (Subsystem.hasOptionBits v.tags)
    have hs : (ofView v graph s).keyPoints = points.take s.maxKeyPoints.toNat := rfl
    have ht : (ofView v graph t).keyPoints = points.take t.maxKeyPoints.toNat := rfl
    rw [hs, ht]
    rcases UInt64.le_total s.maxKeyPoints t.maxKeyPoints with hle | hle
    · exact .inl ⟨hle, List.take_prefix_take_left (UInt64.le_iff_toNat_le.1 hle)⟩
    · exact .inr ⟨hle, List.take_prefix_take_left (UInt64.le_iff_toNat_le.1 hle)⟩
  · rcases Category.ofView_eq_or_between v (Pattern.detect v) graph s.statusOverrideMinOutputs.toNat
      t.statusOverrideMinOutputs.toNat with heq | hbetween
    · have hpurpose : (ofView v graph s).purposeDetail = (ofView v graph t).purposeDetail :=
        congrArg (Purpose.ofView v (Pattern.detect v) · (Subsystem.ofTags v.tags)) heq
      exact .inl ⟨heq, congrArg (·.template) hpurpose, congrArg (·.sentence) hpurpose⟩
    · exact .inr hbetween

end Context

namespace Analysis

/-- The settings have no part in the tags, the patterns and the keys of an analysis, and two of its
contexts under one key differ in no more than what a policy may decide. -/
theorem ofProject_differsByPolicy (p : Project) (s t : Settings) :
    let a := ofProject p s
    let b := ofProject p t
    a.tagUsage = b.tagUsage ∧ a.patterns = b.patterns ∧ a.contexts.names = b.contexts.names ∧
      ∀ key, Option.Rel (Context.DiffersByPolicy s t) (a.contexts.get? key) (b.contexts.get? key) := by
  intro a b
  refine ⟨rfl, ?_, ?_, ?_⟩
  · simp only [a, b, ofProject, contextsOf, List.flatMap_map]
    rfl
  · apply a.contexts.pairwise_names.eq_of_mem_iff b.contexts.pairwise_names
    intro key
    rw [mem_names_contexts, mem_names_contexts]
  · intro key
    rw [get?_contexts, get?_contexts]
    -- Both contexts are those of the last rung under the key.
    cases (p.rungs.filter fun r => r.1.key = key).getLast? with
    | none => exact .none
    | some r => exact .some (Context.differsByPolicy_ofView _ _ s t)

end Analysis

end LadderLogic
