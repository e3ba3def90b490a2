import LadderLogic.Proofs.Rung.Excerpt
import LadderLogic.Proofs.Rung.Group

/-! Paths in series. The circuit reads a group inside a leg or behind the first group as one line, with all legs
one after another. Such a line is a path in series as far as no two legs of one group have something to look at.
-/
namespace LadderLogic.Circuit
open Nesting Delimited
open Instruction (allIn)

/-- A path through a text with one leg of every group, those inside legs and those behind the first one
included. -/
inductive SeriesPath : List Char → List Instruction → Prop where
  | line {cs : List Char} (hnone : split? cs = none) : SeriesPath cs (allIn cs)
  | group {cs leg : List Char} {x : Split} {p q : List Instruction} (hsome : split? cs = some x)
      (hleg : leg ∈ splitTopLevel x.group) (hp : SeriesPath leg p) (hq : SeriesPath x.after q) :
      SeriesPath cs (allIn x.before ++ p ++ q)

theorem seriesPath_iff_of_split?_eq_none {cs : List Char} {path : List Instruction} (h : split? cs = none) :
    SeriesPath cs path ↔ path = allIn cs := by
  constructor
  · rintro (hnone | ⟨hsome, -, -, -⟩)
    · rfl
    · cases h.symm.trans hsome
  · rintro rfl
    exact .line h

theorem seriesPath_iff_of_split? {cs : List Char} {x : Split} {path : List Instruction} (h : split? cs = some x) :
    SeriesPath cs path ↔ ∃ leg ∈ splitTopLevel x.group, ∃ p q, SeriesPath leg p ∧ SeriesPath x.after q ∧
      path = allIn x.before ++ p ++ q := by
  constructor
  · rintro (hnone | ⟨hsome, hleg, hp, hq⟩)
    · cases h.symm.trans hnone
    · cases h.symm.trans hsome
      exact ⟨_, hleg, _, _, hp, hq, rfl⟩
  · rintro ⟨leg, hleg, p, q, hp, hq, rfl⟩
    exact .group h hleg hp hq

/-- A text is a line, or it is made of the legs of its first group and of what stands around them. -/
theorem group_induction {motive : List Char → Prop} (line : ∀ cs, split? cs = none → motive cs)
    (group : ∀ cs x, split? cs = some x → (∀ leg ∈ splitTopLevel x.group, motive leg) → motive x.after →
      motive cs) (cs : List Char) : motive cs := by
  induction hn : cs.length using Nat.strong_induction_on generalizing cs with
  | _ n ih =>
    cases hsplit : split? cs with
    | none => exact line cs hsplit
    | some x =>
      have hlength := length_of_split? hsplit
      refine group cs x hsplit (fun leg hleg => ?_) ?_
      · have hle := (infix_of_mem_splitTopLevel hleg).length_le
        exact ih leg.length (by omega) leg rfl
      · exact ih x.after.length (by omega) x.after rfl

theorem exists_seriesPath (cs : List Char) : ∃ p, SeriesPath cs p := by
  induction cs using group_induction with
  | line cs hnone => exact ⟨_, .line hnone⟩
  | group cs x hsome hlegs hafter =>
    obtain ⟨leg, hleg⟩ := List.exists_mem_of_ne_nil _ (splitFrom_ne_nil 0 x.group)
    obtain ⟨p, hp⟩ := hlegs leg hleg
    obtain ⟨q, hq⟩ := hafter
    exact ⟨_, .group hsome hleg hp hq⟩

/-- No bracket is open where the first group begins. -/
theorem unclosed_before_of_splitFrom {place : Place} {stack stack' : List Bracket} {cs : List Char} {x : Split}
    (h : splitFrom place cs = some x) (hfits : place.Fits stack) (hcs : unclosed stack cs = some stack') :
    unclosed stack x.before = some [] := by
  induction cs generalizing place stack x with
  | nil => cases place <;> cases h
  | cons c cs ih =>
    obtain ⟨mid, hstep, hrest⟩ := unclosed_cons_eq_some hcs
    have hon : ∀ place' : Place, place'.Fits mid → (∃ y, splitFrom place' cs = some y ∧ extend c y = x) →
        unclosed stack x.before = some [] := by
      rintro place' hfits' ⟨y, hy, rfl⟩
      have hbefore := ih hy hfits' hrest
      simpa [extend, unclosed, hstep] using hbefore
    cases place with
    | line depth =>
      obtain rfl := hfits.1
      by_cases hindex : c = '[' ∧ rounds stack = 0
      · obtain ⟨rfl, hdepth⟩ := hindex
        rw [hdepth] at h hfits
        obtain rfl := hfits.eq_nil
        cases hstep
        rcases splitFrom_line_cons h with ⟨-, -, hbefore, -⟩ | ⟨-, -, -, hy⟩ | ⟨hne, -⟩
        · rw [hbefore]
          rfl
        · exact hon (.index 0) ⟨[], rfl, rfl⟩ hy
        · exact absurd rfl (hne rfl)
      · have hc : c = '[' → rounds stack ≠ 0 := fun hc hdepth => hindex ⟨hc, hdepth⟩
        have hne : c = '[' → stack ≠ [] := fun hc' hnil => hc hc' (by rw [hnil]; rfl)
        rw [splitFrom_line_cons_of_step hstep hc] at h
        exact hon _ (hfits.line_step hstep hne) (Option.map_eq_some_iff.1 h)
    | index more =>
      obtain ⟨extra, rfl, rfl⟩ := hfits
      rcases step_append hstep with ⟨extra', hextra, rfl⟩ | ⟨rfl, ⟨-, hbase⟩ | ⟨rfl, hbase⟩⟩
      · rw [splitFrom_index_cons_of_step hextra] at h
        exact hon (.index (squares extra')) ⟨extra', rfl, rfl⟩ (Option.map_eq_some_iff.1 h)
      · cases hbase
      · cases hbase
        exact hon (.line 0) ⟨rfl, Or.inl rfl⟩ (Option.map_eq_some_iff.1 h)

theorem wellNested_of_split? {cs : List Char} {x : Split} (h : split? cs = some x) (hcs : WellNested cs) :
    WellNested x.group ∧ WellNested x.after := by
  have hclear : (Place.line 0).Clear (.outside []) cs := Nat.zero_le 0
  have hfits : (Place.line 0).Fits [] := ⟨rfl, Or.inl rfl⟩
  have hbefore := unclosed_before_of_splitFrom h hfits hcs
  obtain ⟨rest, rfl, -, hgroup⟩ := cuts_of_splitFrom h hclear
  have hrest : unclosed ([] ++ [.square]) rest = some [] := by
    rw [WellNested, unclosed_append, hbefore] at hcs
    exact hcs
  rcases hgroup with hclosing | ⟨hclosing, -, -⟩
  · exact unclosed_of_closing (squares_nil ▸ hclosing) hrest
  · obtain ⟨extra, -, hstack⟩ := unclosed_of_closing_eq_none (squares_nil ▸ hclosing) hrest
    simp at hstack

theorem wellNested_of_mem_legs {cs leg : List Char} {x : Split} (h : split? cs = some x) (hcs : WellNested cs)
    (hleg : leg ∈ splitTopLevel x.group) : WellNested leg :=
  wellNested_of_mem_splitTopLevel (wellNested_of_split? h hcs).1 hleg

/-- The instructions of a text are those before its group, those of the legs and those behind it. -/
theorem allIn_of_split? {cs : List Char} {x : Split} (h : split? cs = some x) (hcs : WellNested cs) :
    allIn cs = allIn x.before ++ (splitTopLevel x.group).flatMap allIn ++ allIn x.after := by
  obtain ⟨hall, hgroup⟩ := all_eq_of_split? h (Option.isSome_of_eq_some hcs)
  rw [allIn, hall, ← Call.flatMap_all_splitTopLevel hgroup, List.map_append, List.map_append, List.map_flatMap]
  rfl

/-- A path has nothing that the text as one line has not, and has it in the same order. -/
theorem SeriesPath.sublist {cs : List Char} {p : List Instruction} (h : SeriesPath cs p) (hcs : WellNested cs) :
    p.Sublist (allIn cs) := by
  induction h with
  | line hnone => exact List.Sublist.refl _
  | group hsome hleg _ _ ihp ihq =>
    have hp := ihp (wellNested_of_mem_legs hsome hcs hleg)
    have hq := ihq (wellNested_of_split? hsome hcs).2
    have hinfix : allIn _ <:+: (splitTopLevel _).flatMap allIn :=
      List.infix_of_mem_flatten (List.mem_map_of_mem hleg)
    rw [allIn_of_split? hsome hcs]
    exact ((List.Sublist.refl _).append (hp.trans hinfix.sublist)).append hq

/-- Every instruction of a text is on a path. -/
theorem exists_seriesPath_mem {cs : List Char} (hcs : WellNested cs) {i : Instruction} (hi : i ∈ allIn cs) :
    ∃ p, SeriesPath cs p ∧ i ∈ p := by
  induction cs using group_induction with
  | line cs hnone => exact ⟨_, .line hnone, hi⟩
  | group cs x hsome hlegs hafter =>
    obtain ⟨leg, hleg⟩ := List.exists_mem_of_ne_nil _ (splitFrom_ne_nil 0 x.group)
    obtain ⟨p, hp⟩ := exists_seriesPath leg
    obtain ⟨q, hq⟩ := exists_seriesPath x.after
    rw [allIn_of_split? hsome hcs, List.mem_append, List.mem_append, List.mem_flatMap] at hi
    rcases hi with (hi | ⟨leg', hleg', hi⟩) | hi
    · exact ⟨_, .group hsome hleg hp hq, by simp [hi]⟩
    · obtain ⟨p', hp', hmem⟩ := hlegs leg' hleg' (wellNested_of_mem_legs hsome hcs hleg') hi
      exact ⟨_, .group hsome hleg' hp' hq, by simp [hmem]⟩
    · obtain ⟨q', hq', hmem⟩ := hafter (wellNested_of_split? hsome hcs).2 hi
      exact ⟨_, .group hsome hleg hp hq', by simp [hmem]⟩

/-- In each group of a text at most one leg has instructions that are looked at. -/
inductive Unmixed (wanted : Instruction → Bool) : List Char → Prop where
  | line {cs : List Char} (hnone : split? cs = none) : Unmixed wanted cs
  | group {cs leg : List Char} {x : Split} {legs₁ legs₂ : List (List Char)} (hsome : split? cs = some x)
      (hlegs : splitTopLevel x.group = legs₁ ++ leg :: legs₂)
      (hothers : ∀ other ∈ legs₁ ++ legs₂, (allIn other).filter wanted = [])
      (hleg : Unmixed wanted leg) (hafter : Unmixed wanted x.after) : Unmixed wanted cs

/-- Then a path has all of these instructions. -/
theorem Unmixed.exists_seriesPath {wanted : Instruction → Bool} {cs : List Char} (h : Unmixed wanted cs)
    (hcs : WellNested cs) : ∃ p, SeriesPath cs p ∧ p.filter wanted = (allIn cs).filter wanted := by
  induction h with
  | line hnone => exact ⟨_, .line hnone, rfl⟩
  | @group cs leg x legs₁ legs₂ hsome hlegs hothers _ _ ihleg ihafter =>
    have hleg : leg ∈ splitTopLevel x.group := by simp [hlegs]
    obtain ⟨p, hp, hpwanted⟩ := ihleg (wellNested_of_mem_legs hsome hcs hleg)
    obtain ⟨q, hq, hqwanted⟩ := ihafter (wellNested_of_split? hsome hcs).2
    refine ⟨_, .group hsome hleg hp hq, ?_⟩
    have hnone : ∀ legs : List (List Char), (∀ other ∈ legs, other ∈ legs₁ ++ legs₂) →
        (legs.flatMap allIn).filter wanted = [] := by
      intro legs hsub
      rw [List.filter_flatMap, List.flatMap_eq_nil_iff]
      exact fun other hother => hothers other (hsub other hother)
    have h₁ := hnone legs₁ fun other hother => List.mem_append_left _ hother
    have h₂ := hnone legs₂ fun other hother => List.mem_append_right _ hother
    rw [allIn_of_split? hsome hcs, hlegs, List.flatMap_append, List.flatMap_cons]
    simp only [List.filter_append, hpwanted, hqwanted, h₁, h₂, List.nil_append, List.append_nil]

theorem map_branches (f : List Instruction → β) (parts : List (List Char)) :
    (parts.zipIdx.map fun (part, index) => branch part index).map (fun b => f b.instructions) =
      parts.map fun part => f (allIn part) := by
  conv => rhs; rw [← List.zipIdx_map_fst 0 parts, List.map_map]
  rw [List.map_map]
  rfl

/-- The circuit's paths are the text as one line, or have one leg of its first group as a line. -/
theorem mem_paths_ofText {text : String} {path : List Instruction} :
    path ∈ (ofText text).paths ↔
      split? text.toList = none ∧ path = allIn text.toList ∨
        ∃ x, split? text.toList = some x ∧ ∃ leg ∈ splitTopLevel x.group,
          path = allIn x.before ++ allIn leg ++ allIn x.after := by
  unfold ofText ofChars paths
  cases hsplit : split? text.toList with
  | none => simp
  | some x =>
    have hne : splitTopLevel x.group ≠ [] := splitFrom_ne_nil 0 x.group
    simp only
    rw [if_neg (by simpa using hne), map_branches fun is => allIn x.before ++ is ++ allIn x.after, List.mem_map]
    constructor
    · rintro ⟨leg, hleg, rfl⟩
      exact Or.inr ⟨x, rfl, leg, hleg, rfl⟩
    · rintro (⟨hnone, -⟩ | ⟨y, hy, leg, hleg, rfl⟩)
      · cases hnone
      · cases hy
        exact ⟨leg, hleg, rfl⟩

/-- An instruction on a path of the circuit is on a path in series that has nothing else beside. -/
theorem exists_seriesPath_of_mem_paths {text : String} (hcs : WellNested text.toList) {path : List Instruction}
    (hpath : path ∈ (ofText text).paths) {i : Instruction} (hi : i ∈ path) :
    ∃ p, SeriesPath text.toList p ∧ i ∈ p ∧ p.Sublist path := by
  rcases mem_paths_ofText.1 hpath with ⟨hnone, rfl⟩ | ⟨x, hsome, leg, hleg, rfl⟩
  · exact ⟨_, .line hnone, hi, List.Sublist.refl _⟩
  · have hlegNested := wellNested_of_mem_legs hsome hcs hleg
    have hafterNested := (wellNested_of_split? hsome hcs).2
    have hparts : ∃ p q, SeriesPath leg p ∧ SeriesPath x.after q ∧ i ∈ allIn x.before ++ p ++ q := by
      obtain ⟨p, hp⟩ := exists_seriesPath leg
      obtain ⟨q, hq⟩ := exists_seriesPath x.after
      rw [List.mem_append, List.mem_append] at hi
      rcases hi with (hi | hi) | hi
      · exact ⟨p, q, hp, hq, by simp [hi]⟩
      · obtain ⟨p', hp', hmem⟩ := exists_seriesPath_mem hlegNested hi
        exact ⟨p', q, hp', hq, by simp [hmem]⟩
      · obtain ⟨q', hq', hmem⟩ := exists_seriesPath_mem hafterNested hi
        exact ⟨p, q', hp, hq', by simp [hmem]⟩
    obtain ⟨p, q, hp, hq, hmem⟩ := hparts
    refine ⟨_, .group hsome hleg hp hq, hmem, ?_⟩
    exact ((List.Sublist.refl _).append (hp.sublist hlegNested)).append (hq.sublist hafterNested)

/-- Behind the first group and inside its legs, at most one leg of each group has instructions that are
looked at. -/
def BranchesOnce (wanted : Instruction → Bool) (cs : List Char) : Prop :=
  ∀ x, split? cs = some x → Unmixed wanted x.after ∧ ∀ leg ∈ splitTopLevel x.group, Unmixed wanted leg

theorem BranchesOnce.exists_seriesPath {wanted : Instruction → Bool} {text : String}
    (h : BranchesOnce wanted text.toList) (hcs : WellNested text.toList) {path : List Instruction}
    (hpath : path ∈ (ofText text).paths) :
    ∃ p, SeriesPath text.toList p ∧ p.filter wanted = path.filter wanted := by
  rcases mem_paths_ofText.1 hpath with ⟨hnone, rfl⟩ | ⟨x, hsome, leg, hleg, rfl⟩
  · exact ⟨_, .line hnone, rfl⟩
  · obtain ⟨hafter, hlegs⟩ := h x hsome
    obtain ⟨p, hp, hpwanted⟩ := (hlegs leg hleg).exists_seriesPath (wellNested_of_mem_legs hsome hcs hleg)
    obtain ⟨q, hq, hqwanted⟩ := hafter.exists_seriesPath (wellNested_of_split? hsome hcs).2
    refine ⟨_, .group hsome hleg hp hq, ?_⟩
    simp only [List.filter_append, hpwanted, hqwanted]

end LadderLogic.Circuit
