import LadderLogic.Context.KeyPoint
import LadderLogic.Proofs.Pattern.Detection
import Mathlib.Data.List.Find

/-! What the conclusions about a rung take from its patterns: of which kinds there are some, and for the key
points also the descriptions. -/
namespace LadderLogic

namespace Pattern

/-- There are patterns of the same kinds in both lists, likely mistakes apart. Their order, how many there are of a
kind, and what else they tell may differ. -/
def SameKinds (xs ys : List Pattern) : Prop :=
  ∀ kind, kind ≠ .codeConcern → ((∃ p ∈ xs, p.kind = kind) ↔ ∃ p ∈ ys, p.kind = kind)

/-- The patterns without the likely mistakes. -/
def withoutConcerns (patterns : List Pattern) : List Pattern :=
  patterns.filter fun p => p.kind ≠ .codeConcern

theorem SameKinds.fired_eq {xs ys : List Pattern} (h : SameKinds xs ys) {kind : PatternKind}
    (hkind : kind ≠ .codeConcern) : fired xs kind = fired ys kind := by
  rw [Bool.eq_iff_iff, fired_eq_true_iff, fired_eq_true_iff]
  exact h kind hkind

/-- A table without likely mistakes has the same first row for both. -/
theorem SameKinds.find?_row {xs ys : List Pattern} (h : SameKinds xs ys) (rows : List (PatternKind × α))
    (hrows : ∀ row ∈ rows, row.1 ≠ .codeConcern) :
    rows.find? (fun row => Pattern.fired xs row.1) = rows.find? (fun row => Pattern.fired ys row.1) :=
  List.find?_congr fun row hrow => h.fired_eq (hrows row hrow)

theorem sameKinds_withoutConcerns (patterns : List Pattern) :
    SameKinds (withoutConcerns patterns) patterns := by
  intro kind hkind
  constructor
  · rintro ⟨p, hp, hpk⟩
    exact ⟨p, List.mem_of_mem_filter hp, hpk⟩
  · rintro ⟨p, hp, rfl⟩
    exact ⟨p, List.mem_filter.2 ⟨hp, decide_eq_true hkind⟩, rfl⟩

theorem find?_kind_withoutConcerns {kind : PatternKind} (hkind : kind ≠ .codeConcern) (patterns : List Pattern) :
    (withoutConcerns patterns).find? (·.kind == kind) = patterns.find? (·.kind == kind) := by
  unfold withoutConcerns
  rw [List.find?_filter]
  refine List.find?_congr fun p _ => ?_
  by_cases hp : p.kind = kind
  · simp [hp, hkind]
  · simp [hp]

theorem find?_kind_eq_none_iff {kind : PatternKind} {patterns : List Pattern} :
    patterns.find? (·.kind == kind) = none ↔ fired patterns kind = false := by
  rw [← Option.not_isSome_iff_eq_none, List.find?_isSome, ← Bool.not_eq_true, fired_eq_true_iff]
  simp only [beq_iff_eq]

end Pattern

open Pattern

theorem Category.ofView_eq_of_sameKinds {xs ys : List Pattern} (h : SameKinds xs ys) (v : View) (graph : TagGraph)
    (statusOutputs : Nat) : ofView v xs graph statusOutputs = ofView v ys graph statusOutputs := by
  have hstatus : fired xs .statusMonitoring = fired ys .statusMonitoring := h.fired_eq (by decide)
  have hfault : fired xs .faultDetection = fired ys .faultDetection := h.fired_eq (by decide)
  have hrow := h.find?_row ofPatterns (by decide)
  unfold ofView
  dsimp only
  rw [hstatus, hfault, hrow]

theorem Template.ofView_eq_of_sameKinds {xs ys : List Pattern} (h : SameKinds xs ys) (v : View)
    (category : Category) : ofView v xs category = ofView v ys category := by
  have hrow := h.find?_row ofPatterns (by decide)
  unfold ofView
  rw [hrow]

theorem Purpose.ofView_eq_of_sameKinds {xs ys : List Pattern} (h : SameKinds xs ys) (v : View)
    (category : Category) (subsystems : List String) :
    ofView v xs category subsystems = ofView v ys category subsystems := by
  unfold ofView
  rw [Template.ofView_eq_of_sameKinds h]

namespace KeyPoint

theorem about_withoutConcerns {kind : PatternKind} (hkind : kind ≠ .codeConcern) (patterns : List Pattern)
    (remark : Pattern → String) : about (withoutConcerns patterns) kind remark = about patterns kind remark := by
  unfold about
  rw [find?_kind_withoutConcerns hkind]

theorem about_of_fired_eq_false {kind : PatternKind} {patterns : List Pattern} (h : fired patterns kind = false)
    (remark : Pattern → String) : about patterns kind remark = [] := by
  unfold about
  rw [find?_kind_eq_none_iff.2 h]
  rfl

theorem about_of_fired {kind : PatternKind} {patterns : List Pattern} (h : fired patterns kind = true)
    (remark : Pattern → String) : ∃ p ∈ patterns, p.kind = kind ∧ about patterns kind remark = [remark p] := by
  unfold about
  cases hfind : patterns.find? (·.kind == kind) with
  | none =>
    rw [find?_kind_eq_none_iff.1 hfind] at h
    cases h
  | some p => exact ⟨p, List.mem_of_find?_eq_some hfind, by simpa using List.find?_some hfind, rfl⟩

theorem fired_withoutConcerns_codeConcern (patterns : List Pattern) :
    fired (withoutConcerns patterns) .codeConcern = false := by
  rw [← Bool.not_eq_true, fired_eq_true_iff]
  rintro ⟨p, hp, hkind⟩
  exact of_decide_eq_true (List.mem_filter.1 hp).2 hkind

/-- The likely mistakes make the last key point, and nothing else of them is told. -/
theorem all_eq_append (v : View) (patterns : List Pattern) (graph : TagGraph) (p : Purpose) (optionBits : Bool) :
    all v patterns graph p optionBits = all v (withoutConcerns patterns) graph p optionBits ++
      about patterns .codeConcern fun c => "Review: " ++ c.description := by
  have hlatch : fired (withoutConcerns patterns) .latchUnlatch = fired patterns .latchUnlatch :=
    (sameKinds_withoutConcerns patterns).fired_eq (by decide)
  have honce : fired (withoutConcerns patterns) .oneShot = fired patterns .oneShot :=
    (sameKinds_withoutConcerns patterns).fired_eq (by decide)
  have hconcern := about_of_fired_eq_false (fired_withoutConcerns_codeConcern patterns)
  unfold all
  rw [hlatch, honce, hconcern, about_withoutConcerns (by decide), about_withoutConcerns (by decide),
    about_withoutConcerns (by decide), List.append_nil]

end KeyPoint

/-- The category and the purpose rest on the kinds of patterns that there are, likely mistakes apart: not on their
order, on how many there are of a kind or on what they tell. Without the likely mistakes the key points are the
same but for the last one, if there is such a mistake. -/
theorem Pattern.conclusions_of_sameKinds (v : View) (graph : TagGraph) (statusOutputs : Nat)
    (subsystems : List String) :
    (∀ xs ys, SameKinds xs ys →
        Category.ofView v xs graph statusOutputs = Category.ofView v ys graph statusOutputs ∧
          ∀ category, Purpose.ofView v xs category subsystems = Purpose.ofView v ys category subsystems) ∧
      ∀ patterns purpose optionBits,
        let points := fun ps => KeyPoint.all v ps graph purpose optionBits
        (fired patterns .codeConcern = false → points (withoutConcerns patterns) = points patterns) ∧
          (fired patterns .codeConcern = true → ∃ concern ∈ patterns, concern.kind = .codeConcern ∧
            points patterns = points (withoutConcerns patterns) ++ ["Review: " ++ concern.description]) := by
  constructor
  · intro xs ys h
    exact ⟨Category.ofView_eq_of_sameKinds h v graph statusOutputs,
      fun category => Purpose.ofView_eq_of_sameKinds h v category subsystems⟩
  · intro patterns purpose optionBits points
    have hall : points patterns = points (withoutConcerns patterns) ++ _ :=
      KeyPoint.all_eq_append v patterns graph purpose optionBits
    constructor
    · intro hnone
      rw [hall, KeyPoint.about_of_fired_eq_false hnone, List.append_nil]
    · intro hsome
      obtain ⟨concern, hmem, hkind, habout⟩ :=
        KeyPoint.about_of_fired hsome fun c => "Review: " ++ c.description
      rw [habout] at hall
      exact ⟨concern, hmem, hkind, hall⟩

theorem Pattern.conclusions_of_sameKinds_repeated :
    let v := View.ofRung "Main" "R1" { number := 1, text := "XIC(A) TON(T1,5,0)" }
    let pattern (kind : PatternKind) (percent : Nat) (description : String) : Pattern :=
      ⟨kind, .percent percent, [v.location], [], description⟩
    let xs := [pattern .timerDelay 80 "first", pattern .codeConcern 80 "bits", pattern .safetyInterlock 75 "door",
      pattern .timerDelay 95 "second"]
    let ys := [pattern .safetyInterlock 90 "gate", pattern .timerDelay 75 "third"]
    (SameKinds xs ys ∧ fired xs .codeConcern = true) ∧
      Category.ofView v xs .empty 5 = Category.ofView v ys .empty 5 ∧
      Purpose.ofView v xs .safety [] = Purpose.ofView v ys .safety [] ∧
      KeyPoint.all v xs .empty { template := .empty } false =
        KeyPoint.all v (withoutConcerns xs) .empty { template := .empty } false ++ ["Review: bits"] := by
  intro v pattern xs ys
  have hsame : SameKinds xs ys := by
    intro kind hkind
    simp only [xs, ys, pattern, List.mem_cons, List.not_mem_nil, or_false, exists_eq_or_imp, exists_eq_left]
    grind
  have hconcern : fired xs .codeConcern = true := by decide
  obtain ⟨hkinds, hpoints⟩ := conclusions_of_sameKinds v .empty 5 []
  obtain ⟨concern, hmem, hkind, hlast⟩ := (hpoints xs { template := .empty } false).2 hconcern
  have hdescription : concern.description = "bits" := by
    simp only [xs, pattern, List.mem_cons, List.not_mem_nil, or_false] at hmem
    rcases hmem with rfl | rfl | rfl | rfl
    · cases hkind
    · rfl
    · cases hkind
    · cases hkind
  rw [hdescription] at hlast
  exact ⟨⟨hsame, hconcern⟩, (hkinds xs ys hsame).1, (hkinds xs ys hsame).2 .safety, hlast⟩

end LadderLogic
