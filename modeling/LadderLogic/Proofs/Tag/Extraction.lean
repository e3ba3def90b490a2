import LadderLogic.Proofs.Tag.Related

/-! The tags of rungs, as the tag graph of a project has them and as the views of its rungs have them. -/
namespace LadderLogic

/-- The rung stands in a routine and a program of these names. -/
def Project.HasRung (p : Project) (program routine : String) (rung : Rung) : Prop :=
  ∃ owner ∈ p.programs, owner.name = program ∧
    ∃ part ∈ owner.routines, part.name = routine ∧ rung ∈ part.rungs

instance (p : Project) (program routine : String) (rung : Rung) :
    Decidable (p.HasRung program routine rung) :=
  inferInstanceAs (Decidable (∃ owner ∈ p.programs, _ ∧ _))

theorem Project.mem_rungs {p : Project} {program routine : String} {n : UInt32} {rung : Rung} :
    (⟨program, routine, n⟩, rung) ∈ p.rungs ↔ p.HasRung program routine rung ∧ rung.number = n := by
  simp only [rungs, HasRung, List.mem_flatMap, List.mem_map, Prod.mk.injEq, Location.mk.injEq]
  constructor
  · rintro ⟨owner, howner, part, hpart, _, hrung, ⟨rfl, rfl, rfl⟩, rfl⟩
    exact ⟨⟨owner, howner, rfl, part, hpart, rfl, hrung⟩, rfl⟩
  · rintro ⟨⟨owner, howner, rfl, part, hpart, rfl, hrung⟩, rfl⟩
    exact ⟨owner, howner, part, hpart, rung, hrung, ⟨rfl, rfl, rfl⟩, rfl⟩

theorem View.trim_eq_of_mem_tags {program routine : String} {rung : Rung} {tag : String}
    (h : tag ∈ (ofRung program routine rung).tags) : Text.trim tag = tag := by
  obtain ⟨usage, htag⟩ := mem_tags.1 h
  rw [tagsFor_ofRung] at htag
  exact trim_eq_of_mem_tagsUsed htag

namespace TagGraph

theorem mem_rungsUsing_iff_tagsFor {p : Project} {tag program routine : String} {usage : Usage} {n : UInt32} :
    n ∈ (ofProject p).rungsUsing tag program routine usage ↔
      ∃ rung, p.HasRung program routine rung ∧ rung.number = n ∧
        tag ∈ (View.ofRung program routine rung).tagsFor usage := by
  simp only [mem_rungsUsing, Project.mem_rungs, and_assoc]

theorem isSome_get?_iff_mem_tags {p : Project} {tag : String} :
    ((ofProject p).get? tag).isSome ↔ ∃ program routine rung,
      p.HasRung program routine rung ∧ tag ∈ (View.ofRung program routine rung).tags := by
  rw [isSome_get?_ofProject]
  simp only [View.mem_tags]
  constructor
  · rintro ⟨usage, hne⟩
    obtain ⟨r, hr⟩ := List.exists_mem_of_ne_nil _ hne
    have hlocation : r.location ∈ (p.operandsUsing tag usage).map (·.location) := List.mem_map_of_mem hr
    obtain ⟨rung, hrung, htag⟩ := Project.mem_location_operandsUsing.1 hlocation
    exact ⟨_, _, rung, (Project.mem_rungs.1 hrung).1, usage, htag⟩
  · rintro ⟨program, routine, rung, hrung, usage, htag⟩
    have hlocation : ⟨program, routine, rung.number⟩ ∈ (p.operandsUsing tag usage).map (·.location) :=
      Project.mem_location_operandsUsing.2 ⟨rung, Project.mem_rungs.2 ⟨hrung, rfl⟩, htag⟩
    exact ⟨usage, fun hnil => by simp [hnil] at hlocation⟩

/-- The graph says that a rung reads a tag if the tag is an input of the rung's view, it says that a
rung writes a tag if the tag is an output of the view, and it has the tags of all views and no
others. -/
theorem ofProject_agrees_with_views (p : Project) (tag : String) :
    (∀ program routine n, n ∈ (ofProject p).rungsUsing tag program routine .read ↔
        ∃ rung, p.HasRung program routine rung ∧ rung.number = n ∧
          tag ∈ (View.ofRung program routine rung).inputs) ∧
      (∀ program routine n, n ∈ (ofProject p).rungsUsing tag program routine .write ↔
        ∃ rung, p.HasRung program routine rung ∧ rung.number = n ∧
          tag ∈ (View.ofRung program routine rung).outputs) ∧
      (((ofProject p).get? tag).isSome ↔ ∃ program routine rung,
        p.HasRung program routine rung ∧ tag ∈ (View.ofRung program routine rung).tags) :=
  ⟨fun _ _ _ => mem_rungsUsing_iff_tagsFor, fun _ _ _ => mem_rungsUsing_iff_tagsFor,
    isSome_get?_iff_mem_tags⟩

end TagGraph

end LadderLogic
