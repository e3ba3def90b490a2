import LadderLogic.Proofs.Pattern.Finding
import Mathlib.Data.List.Nodup

/-! The patterns of a rung, and the rules that find them. -/
namespace LadderLogic

namespace PatternKind

theorem mem_all (kind : PatternKind) : kind ∈ all := by
  cases kind <;> decide

theorem pairwise_all : all.Pairwise fun a b => a.ctorIdx < b.ctorIdx := by
  decide

theorem filter_all (kind : PatternKind) : (all.filter fun k => k = kind) = [kind] := by
  cases kind <;> decide

end PatternKind

/-- Scaling is not looked for where a bit is misused. -/
theorem Rule.concern?_eq_none_of_dataScaling {v : View} (h : (dataScaling v).isSome = true) :
    concern? v = none := by
  by_contra hne
  have hsome : (concern? v).isSome = true := Option.isSome_iff_ne_none.2 hne
  unfold dataScaling at h
  simp only [hsome, if_true, ite_self, Option.isSome_none, Bool.false_eq_true] at h

theorem Pattern.find?_eq_map (v : View) (kind : PatternKind) :
    find? v kind = (kind.rule v).map fun f => ⟨kind, f.confidence, [v.location], f.tags, f.description⟩ := by
  unfold find?
  cases hrule : kind.rule v with
  | none => rfl
  | some f => rw [Option.map_some, Option.map_some, (PatternKind.canFind_rule hrule).kind_eq]

theorem Pattern.fired_eq_true_iff {patterns : List Pattern} {kind : PatternKind} :
    fired patterns kind = true ↔ ∃ p ∈ patterns, p.kind = kind := by
  unfold fired
  rw [List.any_eq_true]
  simp only [beq_iff_eq]

theorem Pattern.map_kind_detect (v : View) :
    (detect v).map (·.kind) = PatternKind.all.filter fun kind => (kind.rule v).isSome := by
  unfold detect
  rw [List.map_filterMap]
  induction PatternKind.all with
  | nil => rfl
  | cons kind kinds ih =>
    rw [List.filterMap_cons, List.filter_cons, ih, find?_eq_map]
    cases kind.rule v <;> rfl

/-- The patterns stand in the order of their kinds. -/
theorem Pattern.pairwise_kind_detect (v : View) :
    ((detect v).map (·.kind)).Pairwise fun a b => a.ctorIdx < b.ctorIdx := by
  rw [map_kind_detect]
  exact PatternKind.pairwise_all.filter _

/-- A rule reports its pattern at most once on a rung. -/
theorem Pattern.nodup_kind_detect (v : View) : ((detect v).map (·.kind)).Nodup := by
  refine (pairwise_kind_detect v).imp fun hlt heq => ?_
  rw [heq] at hlt
  exact Nat.lt_irrefl _ hlt

namespace Pattern

theorem fired_detect_iff {v : View} {kind : PatternKind} :
    fired (detect v) kind = true ↔ (kind.rule v).isSome = true := by
  have hkinds : fired (detect v) kind = true ↔ kind ∈ (detect v).map (·.kind) := by
    rw [fired_eq_true_iff, List.mem_map]
  rw [hkinds, map_kind_detect, List.mem_filter]
  exact and_iff_right kind.mem_all

theorem mem_detect_of_find? {v : View} {kind : PatternKind} {p : Pattern} (h : find? v kind = some p) :
    p ∈ detect v ∧ p.kind = kind := by
  refine ⟨List.mem_filterMap.2 ⟨kind, kind.mem_all, h⟩, ?_⟩
  rw [find?_eq_map] at h
  obtain ⟨f, -, rfl⟩ := Option.map_eq_some_iff.1 h
  rfl

theorem exists_finding_of_mem_detect {v : View} {p : Pattern} (h : p ∈ detect v) :
    ∃ f, p.kind.rule v = some f ∧ p = ⟨p.kind, f.confidence, [v.location], f.tags, f.description⟩ := by
  obtain ⟨kind, -, hfind⟩ := List.mem_filterMap.1 h
  rw [find?_eq_map] at hfind
  obtain ⟨f, hf, rfl⟩ := Option.map_eq_some_iff.1 hfind
  exact ⟨f, hf, rfl⟩

/-- Of each kind the patterns have what the rule of the kind finds. -/
theorem filter_kind_detect (v : View) (kind : PatternKind) :
    ((detect v).filter fun p => p.kind = kind) = (find? v kind).toList := by
  have hown : ∀ k, ((find? v k).filter fun p => p.kind = kind) = if k = kind then find? v k else none := by
    intro k
    rw [find?_eq_map]
    cases k.rule v with
    | none => simp
    | some f => by_cases hk : k = kind <;> simp [hk]
  unfold detect
  rw [List.filter_filterMap]
  simp only [hown]
  calc PatternKind.all.filterMap (fun k => if k = kind then find? v k else none)
      = (PatternKind.all.filter fun k => k = kind).filterMap (find? v) := by
        rw [List.filterMap_filter]
        simp only [decide_eq_true_eq]
    _ = [kind].filterMap (find? v) := by rw [PatternKind.filter_all]
    _ = (find? v kind).toList := by cases hfind : find? v kind <;> simp [hfind]

theorem rungs_of_mem_detect {v : View} {p : Pattern} (h : p ∈ detect v) : p.rungs = [v.location] := by
  obtain ⟨f, -, hp⟩ := exists_finding_of_mem_detect h
  rw [hp]

theorem not_fired_dataScaling_and_codeConcern (v : View) :
    ¬(fired (detect v) .dataScaling = true ∧ fired (detect v) .codeConcern = true) := by
  rintro ⟨hscaling, hconcern⟩
  have hnone := Rule.concern?_eq_none_of_dataScaling (fired_detect_iff.1 hscaling)
  have hsome : (Rule.codeConcern v).isSome = true := fired_detect_iff.1 hconcern
  rw [Rule.codeConcern, hnone] at hsome
  cases hsome

/-- There is a rule for each kind of pattern, the rules stand in the order of the kinds and so do the patterns of
a rung, once each. A rule finds patterns of its own kind, and what it finds is reported at the rung's own
location. No rung shows both the scaling of data and a misuse of bits. -/
theorem detect_by_rules (program routine : String) (rung : Rung) :
    let v := View.ofRung program routine rung
    let kinds := (detect v).map (·.kind)
    ((∀ kind, kind ∈ PatternKind.all) ∧ PatternKind.all.Pairwise fun a b => a.ctorIdx < b.ctorIdx) ∧
      (kinds.Sublist PatternKind.all ∧ (kinds.Pairwise fun a b => a.ctorIdx < b.ctorIdx) ∧ kinds.Nodup) ∧
      (∀ (kind : PatternKind) (f : Finding), kind.rule v = some f → f.kind = kind) ∧
      (∀ kind, ((detect v).filter fun p => p.kind = kind) = (find? v kind).toList) ∧
      (∀ p ∈ detect v, p.rungs = [⟨program, routine, rung.number⟩]) ∧
      ¬(fired (detect v) .dataScaling = true ∧ fired (detect v) .codeConcern = true) := by
  intro v kinds
  have hsublist : kinds.Sublist PatternKind.all := by
    simp only [kinds, map_kind_detect]
    exact List.filter_sublist
  exact ⟨⟨PatternKind.mem_all, PatternKind.pairwise_all⟩,
    ⟨hsublist, pairwise_kind_detect v, nodup_kind_detect v⟩,
    fun _ _ hrule => (PatternKind.canFind_rule hrule).kind_eq, filter_kind_detect v, fun _ => rungs_of_mem_detect,
    not_fired_dataScaling_and_codeConcern v⟩

theorem detect_by_rules_bits :
    let rung : Rung := { number := 4, text := "MUL(A_OK,B_OK,Speed) DIV(Speed,4095,Flow)" }
    let v := View.ofRung "Main" "R1" rung
    (PatternKind.codeConcern.rule v).map (·.kind) = some .codeConcern ∧
      (∃ p ∈ detect v, p.kind = .codeConcern ∧ p.rungs = [⟨"Main", "R1", 4⟩]) ∧
      fired (detect v) .dataScaling = false := by
  intro rung v
  obtain ⟨-, -, hrule, -, hrungs, hnotBoth⟩ := detect_by_rules "Main" "R1" rung
  have hfound : (PatternKind.codeConcern.rule v).isSome = true := by decide +kernel
  obtain ⟨f, hf⟩ := Option.isSome_iff_exists.1 hfound
  have hfired : fired (detect v) .codeConcern = true := fired_detect_iff.2 hfound
  obtain ⟨p, hp, hkind⟩ := fired_eq_true_iff.1 hfired
  refine ⟨?_, ⟨p, hp, hkind, hrungs p hp⟩, ?_⟩
  · rw [hf, Option.map_some, hrule _ f hf]
  · rw [Bool.eq_false_iff]
    exact fun hscaling => hnotBoth ⟨hscaling, hfired⟩

end Pattern

end LadderLogic
