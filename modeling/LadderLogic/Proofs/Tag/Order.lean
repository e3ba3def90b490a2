import LadderLogic.Proofs.Sorted
import LadderLogic.Proofs.Tag.Related

/-! The tag graph of a project whose rungs stand in another order. Only the references follow that order, if no
two rungs have one location. -/
namespace LadderLogic

/-- The same routine with its rungs in another order. -/
structure Routine.Reordered (a b : Routine) : Prop where
  name : a.name = b.name
  kind : a.kind = b.kind
  rungs : a.rungs.Perm b.rungs

/-- The same program with its routines, and the rungs in each of them, in another order. -/
structure Program.Reordered (a b : Program) : Prop where
  name : a.name = b.name
  routines : ∃ routines, a.routines.Perm routines ∧ List.Forall₂ Routine.Reordered routines b.routines
  tags : a.tags = b.tags

/-- The same programs in the same order, each of them reordered. -/
structure Project.Reordered (p q : Project) : Prop where
  programs : List.Forall₂ Program.Reordered p.programs q.programs
  tags : p.tags = q.tags

theorem perm_flatMap_of_forall₂ {R : α → β → Prop} {f : α → List γ} {g : β → List γ} {as : List α}
    {bs : List β} (h : List.Forall₂ R as bs) (hfg : ∀ a b, R a b → (f a).Perm (g b)) :
    (as.flatMap f).Perm (bs.flatMap g) := by
  rw [List.flatMap_def, List.flatMap_def]
  apply List.Perm.flatten_congr
  rw [List.forall₂_map_left_iff, List.forall₂_map_right_iff]
  exact h.imp hfg

namespace Project.Reordered

variable {p q : Project}

theorem perm_rungs (h : p.Reordered q) : p.rungs.Perm q.rungs := by
  refine perm_flatMap_of_forall₂ h.programs fun a b hab => ?_
  obtain ⟨routines, hperm, hroutines⟩ := hab.routines
  refine (hperm.flatMap_right _).trans (perm_flatMap_of_forall₂ hroutines fun r s hrs => ?_)
  rw [hab.name, hrs.name]
  exact hrs.rungs.map _

theorem declaredTags (h : p.Reordered q) : p.declaredTags = q.declaredTags := by
  have hprograms : p.programs.map (·.tags) = q.programs.map (·.tags) := by
    rw [← List.forall₂_eq_eq_eq, List.forall₂_map_left_iff, List.forall₂_map_right_iff]
    exact h.programs.imp fun _ _ hab => hab.tags
  unfold Project.declaredTags
  rw [h.tags, List.flatMap_def, List.flatMap_def, hprograms]

end Project.Reordered

theorem firstPerRung_append_of_disjoint {rs ss : List Reference}
    (h : ∀ s ∈ ss, s.location ∉ rs.map (·.location)) :
    firstPerRung (rs ++ ss) = firstPerRung rs ++ firstPerRung ss := by
  rw [firstPerRung_append, List.filter_eq_self.2]
  intro s hs
  have hlocation : s.location ∈ (firstPerRung ss).map (·.location) := List.mem_map_of_mem hs
  obtain ⟨s', hs', heq⟩ := List.mem_map.1 (mem_location_firstPerRung.1 hlocation)
  rw [decide_eq_true_eq, ← heq]
  exact h s' hs'

/-- Where locations do not repeat, each rung keeps a reference whatever the other rungs have. -/
theorem firstPerRung_flatMap {xs : List (Location × α)} (hnodup : (xs.map (·.1)).Nodup)
    {f : Location × α → List Reference} (hf : ∀ x, ∀ r ∈ f x, r.location = x.1) :
    firstPerRung (xs.flatMap f) = xs.flatMap fun x => firstPerRung (f x) := by
  induction xs with
  | nil => rfl
  | cons x xs ih =>
    rw [List.map_cons, List.nodup_cons] at hnodup
    rw [List.flatMap_cons, List.flatMap_cons, ← ih hnodup.2]
    apply firstPerRung_append_of_disjoint
    -- A reference from the first rung's location would make the location stand twice.
    intro s hs hmem
    obtain ⟨y, hy, hsy⟩ := List.mem_flatMap.1 hs
    obtain ⟨r, hr, hloc⟩ := List.mem_map.1 hmem
    have hxy : x.1 = y.1 := by rw [← hf x r hr, hloc, hf y s hsy]
    exact hnodup.1 (hxy ▸ List.mem_map_of_mem hy)

theorem Project.perm_firstPerRung_operandsUsing {p q : Project} (hrungs : p.rungs.Perm q.rungs)
    (hnodup : (p.rungs.map (·.1)).Nodup) (tag : String) (usage : Usage) :
    (firstPerRung (p.operandsUsing tag usage)).Perm (firstPerRung (q.operandsUsing tag usage)) := by
  have hlocation : ∀ x : Location × Rung,
      ∀ r ∈ x.2.allInstructions.flatMap fun i => i.operandsUsing x.1 tag usage, r.location = x.1 := by
    intro x r hr
    obtain ⟨i, -, hi⟩ := List.mem_flatMap.1 hr
    rw [(Instruction.mem_operandsUsing.1 hi).1]
  have hnodup' : (q.rungs.map (·.1)).Nodup := (hrungs.map _).nodup_iff.1 hnodup
  rw [Project.operandsUsing_eq_flatMap_rungs, Project.operandsUsing_eq_flatMap_rungs,
    firstPerRung_flatMap hnodup hlocation, firstPerRung_flatMap hnodup' hlocation]
  exact hrungs.flatMap_right _

/-- The same tag, with its references in another order. -/
structure TagUsage.Reordered (t u : TagUsage) : Prop where
  name : t.name = u.name
  readers : t.readers.Perm u.readers
  writers : t.writers.Perm u.writers
  role : t.role = u.role
  dataType : t.dataType = u.dataType
  description : t.description = u.description

theorem TagUsage.Reordered.referencesFor {t u : TagUsage} (h : t.Reordered u) (usage : Usage) :
    (t.referencesFor usage).Perm (u.referencesFor usage) := by
  cases usage with
  | read => exact h.readers
  | write => exact h.writers

/-- The same tags, with their references in another order. -/
structure TagGraph.Reordered (g h : TagGraph) : Prop where
  tags : ∀ tag, Option.Rel TagUsage.Reordered (g.get? tag) (h.get? tag)
  declared : g.declared = h.declared

namespace TagGraph

theorem reordered_ofProject {p q : Project} (hrungs : p.rungs.Perm q.rungs)
    (hnodup : (p.rungs.map (·.1)).Nodup) (hdeclared : p.declaredTags = q.declaredTags) :
    (ofProject p).Reordered (ofProject q) := by
  refine ⟨fun tag => ?_, hdeclared⟩
  have hmem : tag ∈ p.sightings.map (·.tag) ↔ tag ∈ q.sightings.map (·.tag) :=
    ((hrungs.flatMap_right _).map _).mem_iff
  have hperm := Project.perm_firstPerRung_operandsUsing hrungs hnodup tag
  simp only [← Project.usesIn_sightings] at hperm
  rw [get?_ofProject, get?_ofProject, hdeclared]
  by_cases h : tag ∈ p.sightings.map (·.tag)
  · rw [if_pos h, if_pos (hmem.1 h)]
    exact .some ⟨rfl, hperm .read, hperm .write, rfl, rfl, rfl⟩
  · rw [if_neg h, if_neg (mt hmem.2 h)]
    exact .none

namespace Reordered

variable {g h : TagGraph}

theorem isSome_get? (hgraph : g.Reordered h) (tag : String) : (g.get? tag).isSome = (h.get? tag).isSome := by
  have hrel := hgraph.tags tag
  generalize g.get? tag = a, h.get? tag = b at hrel
  cases hrel <;> rfl

theorem roleOf (hgraph : g.Reordered h) (tag : String) : g.roleOf tag = h.roleOf tag := by
  have hrel := hgraph.tags tag
  unfold TagGraph.roleOf
  generalize g.get? tag = a, h.get? tag = b at hrel
  cases hrel with
  | none => rfl
  | some hrel => exact hrel.role

theorem rungsUsing (hgraph : g.Reordered h) (tag program routine : String) (usage : Usage) :
    g.rungsUsing tag program routine usage = h.rungsUsing tag program routine usage := by
  have hrel := hgraph.tags tag
  unfold TagGraph.rungsUsing
  generalize g.get? tag = a, h.get? tag = b at hrel
  cases hrel with
  | none => rfl
  | some hrel =>
    apply ascending_eq_of_mem_iff
    intro n
    exact (((hrel.referencesFor usage).filter _).map _).mem_iff

theorem unreferenced (hgraph : g.Reordered h) : g.unreferenced = h.unreferenced := by
  have hcontains : ∀ name, g.tags.contains name = h.tags.contains name := by
    intro name
    rw [NameMap.contains_eq, NameMap.contains_eq]
    exact hgraph.isSome_get? name
  unfold TagGraph.unreferenced
  simp only [hcontains, hgraph.declared]

theorem forall₂_entries (hgraph : g.Reordered h) :
    List.Forall₂ (fun a b => a.1 = b.1 ∧ a.2.Reordered b.2) g.tags.entries h.tags.entries :=
  NameMap.forall₂_entries hgraph.tags

end Reordered

end TagGraph

end LadderLogic
