import LadderLogic.Analysis.Basic
import LadderLogic.Proofs.Context.Safety
import Mathlib.Algebra.BigOperators.Group.List.Lemmas
import Mathlib.Algebra.GroupWithZero.Nat

/-! The figures of a summary, counted from the conclusions about the rungs. -/
namespace LadderLogic

/-- The rows are the values that occur, once each and with how often they occur. The most frequent
stand first, and those that occur equally often stand in the order of their rank. -/
structure Tallies [DecidableEq α] (rank : α → Nat) (xs : List α) (rows : List (α × Nat)) : Prop where
  once : (rows.map (·.1)).Nodup
  mem_iff : ∀ a n, (a, n) ∈ rows ↔ a ∈ xs ∧ n = xs.count a
  ordered : rows.Pairwise fun r s => s.2 < r.2 ∨ r.2 = s.2 ∧ rank r.1 < rank s.1

section Tallies

variable [DecidableEq α] {rank : α → Nat} {xs : List α} {rows : List (α × Nat)}

theorem Tallies.sum_counts (h : Tallies rank xs rows) : (rows.map (·.2)).sum = xs.length := by
  have hcounts : rows.map (·.2) = (rows.map (·.1)).map (xs.count ·) := by
    rw [List.map_map]
    exact List.map_congr_left fun r hr => ((h.mem_iff r.1 r.2).1 hr).2
  have hvalues : (rows.map (·.1)).Perm xs.dedup := by
    rw [List.perm_ext_iff_of_nodup h.once xs.nodup_dedup]
    intro a
    rw [List.mem_dedup, List.mem_map]
    constructor
    · rintro ⟨r, hr, rfl⟩
      exact ((h.mem_iff r.1 r.2).1 hr).1
    · intro ha
      exact ⟨(a, xs.count a), (h.mem_iff a _).2 ⟨ha, rfl⟩, rfl⟩
  rw [hcounts, (hvalues.map _).sum_eq]
  exact xs.sum_map_count_dedup_eq_length

/-- What is not in the rows occurs not at all. -/
theorem Tallies.lookup_getD (h : Tallies rank xs rows) (a : α) : (rows.lookup a).getD 0 = xs.count a := by
  cases hlookup : rows.lookup a with
  | none =>
    have hnot : a ∉ xs := by
      intro ha
      have hne := List.lookup_eq_none_iff.1 hlookup _ ((h.mem_iff a _).2 ⟨ha, rfl⟩)
      simp at hne
    exact (List.count_eq_zero.2 hnot).symm
  | some n =>
    obtain ⟨before, after, hrows, -⟩ := List.lookup_eq_some_iff.1 hlookup
    have hmem : (a, n) ∈ rows := by simp [hrows]
    exact ((h.mem_iff a n).1 hmem).2

theorem tallies_histogram {all : List α} (hall : ∀ a, a ∈ all)
    (hrank : all.Pairwise fun a b => rank a < rank b) (xs : List α) : Tallies rank xs (histogram all xs) := by
  let counted := (all.map fun a => (a, xs.count a)).filter fun e => 0 < e.2
  have hperm : (histogram all xs).Perm counted := perm_sortedBy _ counted
  have hcounted : counted.Pairwise fun r s => rank r.1 < rank s.1 := by
    apply List.Pairwise.filter
    rw [List.pairwise_map]
    exact hrank
  refine ⟨?_, ?_, ?_⟩
  · rw [(hperm.map _).nodup_iff]
    refine List.pairwise_map.2 (hcounted.imp fun hlt heq => ?_)
    rw [heq] at hlt
    exact lt_irrefl _ hlt
  · intro a n
    rw [hperm.mem_iff]
    simp only [counted, List.mem_filter, List.mem_map, Prod.mk.injEq, decide_eq_true_eq]
    constructor
    · rintro ⟨⟨_, -, rfl, rfl⟩, hpos⟩
      exact ⟨List.count_pos_iff.1 hpos, rfl⟩
    · rintro ⟨ha, rfl⟩
      exact ⟨⟨a, hall a, rfl, rfl⟩, List.count_pos_iff.2 ha⟩
  · have htotal : ∀ r s : α × Nat, decide (s.2 ≤ r.2) = true ∨ decide (r.2 ≤ s.2) = true := by
      simpa using fun (_ : α) m (_ : α) n => Nat.le_total n m
    have htrans : ∀ r s t : α × Nat, decide (s.2 ≤ r.2) = true → decide (t.2 ≤ s.2) = true →
        decide (t.2 ≤ r.2) = true := by
      simpa using fun (_ : α) m (_ : α) n (_ : α) k hnm hkn => Nat.le_trans hkn hnm
    refine (pairwise_sortedBy htotal htrans hcounted).imp fun {r s} ⟨hle, hrank⟩ => ?_
    have hge := of_decide_eq_true hle
    rcases Nat.lt_or_eq_of_le hge with hlt | heq
    · exact .inl hlt
    · exact .inr ⟨heq.symm, hrank (decide_eq_true heq.ge)⟩

end Tallies

namespace Category

theorem mem_all (category : Category) : category ∈ all := by
  cases category <;> decide

theorem pairwise_all : all.Pairwise fun a b => a.ctorIdx < b.ctorIdx := by
  decide

end Category

namespace Context

/-- The rungs that show a pattern are as many as the patterns of its kind. -/
theorem countP_fired {contexts : List Context} (h : ∀ c ∈ contexts, (c.patterns.map (·.kind)).Nodup)
    (kind : PatternKind) :
    contexts.countP (fun c => Pattern.fired c.patterns kind) =
      ((contexts.flatMap (·.patterns)).map (·.kind)).count kind := by
  induction contexts with
  | nil => rfl
  | cons c contexts ih =>
    have hc : (c.patterns.map (·.kind)).count kind = if Pattern.fired c.patterns kind then 1 else 0 := by
      rw [(h c List.mem_cons_self).count]
      simp only [List.mem_map, Pattern.fired_eq_true_iff]
    rw [List.countP_cons, List.flatMap_cons, List.map_append, List.count_append, hc,
      ih fun d hd => h d (List.mem_cons_of_mem _ hd), Nat.add_comm]

end Context

theorem Project.map_rung_rungs (p : Project) :
    p.rungs.map (·.2) = (p.programs.flatMap (·.routines)).flatMap (·.rungs) := by
  unfold Project.rungs
  simp only [List.map_flatMap, List.map_map, List.flatMap_assoc, Function.comp_def, List.map_id']

namespace Analysis

/-- The summary counts what the analysis concludes about the rungs, all of them and each once, also
where locations repeat. -/
theorem summary_ofProject (p : Project) (settings : Settings) :
    let a := ofProject p settings
    let contexts := p.rungs.map fun (location, rung) =>
      Context.ofView (View.ofRung location.program location.routine rung) (.ofProject p) settings
    a.summary.totalRungs = ((p.programs.flatMap (·.routines)).flatMap (·.rungs)).length ∧
      a.patterns = contexts.flatMap (·.patterns) ∧
      (Tallies Category.ctorIdx (contexts.map (·.category)) a.summary.categoryCounts ∧
        (a.summary.categoryCounts.map (·.2)).sum = a.summary.totalRungs) ∧
      (Tallies PatternKind.ctorIdx (a.patterns.map (·.kind)) a.summary.patternCounts ∧
        (a.summary.patternCounts.map (·.2)).sum = a.patterns.length) ∧
      a.summary.motorControlRungs = (a.summary.categoryCounts.lookup .motorControl).getD 0 ∧
      a.summary.timerRungs = (a.summary.patternCounts.lookup .timerDelay).getD 0 ∧
      a.summary.counterRungs = (a.summary.patternCounts.lookup .counterAccumulator).getD 0 ∧
      (a.summary.patternCounts.lookup .safetyInterlock).getD 0 ≤ a.summary.safetyRungs ∧
      a.summary.totalTags = a.tagUsage.size := by
  intro a contexts
  have hcontexts : (contextsOf p (.ofProject p) settings).map (·.2) = contexts := by
    simp only [contextsOf, List.map_map, Function.comp_def, contexts]
  have hpatterns : a.patterns = contexts.flatMap (·.patterns) := by
    rw [← hcontexts, List.flatMap_map]
    rfl
  have hsummary : a.summary = .ofContexts contexts (.ofProject p) settings := by
    rw [← hcontexts]
    rfl
  have hcategories : Tallies Category.ctorIdx (contexts.map (·.category)) a.summary.categoryCounts := by
    rw [hsummary]
    exact tallies_histogram Category.mem_all Category.pairwise_all _
  have hkinds : Tallies PatternKind.ctorIdx (a.patterns.map (·.kind)) a.summary.patternCounts := by
    rw [hsummary, hpatterns]
    exact tallies_histogram PatternKind.mem_all PatternKind.pairwise_all _
  have hfired : ∀ kind, (a.summary.patternCounts.lookup kind).getD 0 =
      contexts.countP fun c => Pattern.fired c.patterns kind := by
    intro kind
    rw [hkinds.lookup_getD, hpatterns, Context.countP_fired]
    intro c hc
    obtain ⟨⟨location, rung⟩, -, rfl⟩ := List.mem_map.1 hc
    exact Pattern.nodup_kind_detect _
  have htotal : a.summary.totalRungs = contexts.length := by
    rw [hsummary]
    rfl
  refine ⟨?_, hpatterns, ⟨hcategories, ?_⟩, ⟨hkinds, ?_⟩, ?_, ?_, ?_, ?_, ?_⟩
  · rw [htotal, ← p.map_rung_rungs, List.length_map, List.length_map]
  · rw [hcategories.sum_counts, htotal, List.length_map]
  · rw [hkinds.sum_counts, List.length_map]
  · rw [hcategories.lookup_getD, hsummary, List.count_eq_countP, List.countP_map]
    rfl
  · rw [hfired, hsummary]
    rfl
  · rw [hfired, hsummary]
    rfl
  · rw [hfired, hsummary]
    apply List.countP_mono_left
    intro c hc hinterlock
    obtain ⟨⟨location, rung⟩, -, rfl⟩ := List.mem_map.1 hc
    exact Context.safetyRelevant_iff.2 (.inl hinterlock)
  · rw [hsummary]
    rfl

end Analysis

end LadderLogic
