import LadderLogic.Pattern.Detection

/-! What the rule of each kind can find: a pattern of its own kind, with one of five confidences. -/
namespace LadderLogic

namespace Confidence

/-- How sure rules are, in hundredths. -/
def levels : List Nat := [75, 80, 85, 90, 95]

def IsLevel (c : Confidence) : Prop :=
  ∃ n ∈ levels, c = .percent n

theorem isLevel_percent {n : Nat} (h : n ∈ levels) : (percent n).IsLevel :=
  ⟨n, h, rfl⟩

theorem IsLevel.ite {p : Prop} [Decidable p] {c d : Confidence} (hc : c.IsLevel) (hd : d.IsLevel) :
    (if p then c else d).IsLevel := by
  split
  · exact hc
  · exact hd

end Confidence

open Confidence

namespace PatternKind

/-- A finding that the rule of a kind may report. -/
structure CanFind (kind : PatternKind) (f : Finding) : Prop where
  kind_eq : f.kind = kind
  isLevel : f.confidence.IsLevel

theorem canFind_mk {kind : PatternKind} {c : Confidence} (hc : c.IsLevel) (tags : List String)
    (description : String) : kind.CanFind ⟨kind, c, tags, description⟩ :=
  ⟨rfl, hc⟩

end PatternKind

namespace Rule

/-- A rule behind a guard finds nothing else than what stands behind the guard. -/
@[elab_as_elim]
theorem of_guard {P : Finding → Prop} {p : Prop} [Decidable p] {found f : Finding}
    (h : (if p then none else some found) = some f) (hfound : P found) : P f := by
  obtain ⟨-, hf⟩ := Option.ite_none_left_eq_some.1 h
  cases hf
  exact hfound

theorem isLevel_safetyVariant (text : String) : (safetyVariant text).2.IsLevel := by
  unfold safetyVariant
  split
  · exact ⟨95, by decide, rfl⟩
  · split
    · exact ⟨95, by decide, rfl⟩
    · split
      · exact ⟨95, by decide, rfl⟩
      · exact ⟨90, by decide, rfl⟩

/-- An interlock is described by its variant first. -/
theorem eq_of_safetyInterlock {v : View} {f : Finding} (h : safetyInterlock v = some f) :
    ∃ rest, f = ⟨.safetyInterlock, (safetyVariant v.text).2, Vocabulary.safety.select v.tags,
      (safetyVariant v.text).1 ++ " interlock: " ++ rest⟩ := by
  simp only [safetyInterlock, Option.ite_none_left_eq_some, Option.some.injEq] at h
  obtain ⟨-, -, rfl⟩ := h
  rw [String.append_assoc, String.append_assoc]
  exact ⟨_, rfl⟩

/-- Accumulators are the first operands that are tags. -/
theorem eq_of_accumulators {opcodes : List String} {kind : PatternKind} {v : View} {f : Finding}
    (h : accumulators opcodes kind v = some f) :
    ∃ description, f = ⟨kind, .percent 95,
      ((((v.having opcodes).filterMap (·.operands.head?)).filter Operand.isTag).map Text.trim).eraseDups,
      description⟩ := by
  simp only [accumulators] at h
  split at h
  · cases h
  · next hfound =>
    cases h
    rw [hfound]
    exact ⟨_, rfl⟩

theorem eq_of_dataScaling {v : View} {f : Finding} (h : dataScaling v = some f) :
    ∃ n ∈ levels, ∃ description,
      f = ⟨.dataScaling, .percent n, Vocabulary.analog.select v.tags, description⟩ := by
  simp only [dataScaling, Option.ite_none_left_eq_some] at h
  obtain ⟨-, -, h⟩ := h
  split at h <;> cases h <;> exact ⟨_, by decide, _, rfl⟩

end Rule

/-- A rule finds patterns of its own kind and is sure of them by one of the levels. -/
theorem PatternKind.canFind_rule {kind : PatternKind} {v : View} {f : Finding} (h : kind.rule v = some f) :
    kind.CanFind f := by
  cases kind with
  | safetyInterlock =>
    obtain ⟨rest, rfl⟩ := Rule.eq_of_safetyInterlock h
    exact canFind_mk (Rule.isLevel_safetyVariant v.text) _ _
  | timerDelay | counterAccumulator =>
    obtain ⟨description, rfl⟩ := Rule.eq_of_accumulators h
    exact canFind_mk (isLevel_percent (by decide)) _ _
  | dataScaling =>
    obtain ⟨n, hn, description, rfl⟩ := Rule.eq_of_dataScaling h
    exact canFind_mk (isLevel_percent hn) _ _
  | codeConcern =>
    obtain ⟨concern, -, rfl⟩ := Option.map_eq_some_iff.1 h
    exact canFind_mk (isLevel_percent (by decide)) _ _
  | permissiveChain =>
    obtain ⟨chain, -, hf⟩ := Option.bind_eq_some_iff.1 h
    cases hf
    exact canFind_mk (.ite (isLevel_percent (by decide)) (isLevel_percent (by decide))) _ _
  | alarmAnnunciation | modeSelection | jogControl | panelWrite =>
    refine Rule.of_guard h ?_
    exact canFind_mk (.ite (isLevel_percent (by decide)) (isLevel_percent (by decide))) _ _
  | startStopCircuit | latchUnlatch | oneShot | faultDetection | handshake | sequencer | comparisonBranch
  | statusMonitoring | zoneControl =>
    refine Rule.of_guard h ?_
    exact canFind_mk (isLevel_percent (by decide)) _ _

end LadderLogic
