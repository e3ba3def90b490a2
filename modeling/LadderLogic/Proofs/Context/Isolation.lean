import LadderLogic.Context.Basic
import LadderLogic.Proofs.Rung.Render
import LadderLogic.Proofs.Tag.Extraction

/-! What the conclusions about a rung take from the rest of the project: the related rungs and the key points.
-/
namespace LadderLogic

/-- The graphs have the same roles for these tags. -/
def TagGraph.AgreeOn (tags : List String) (g h : TagGraph) : Prop :=
  ∀ tag ∈ tags, g.roleOf tag = h.roleOf tag

namespace TagGraph.AgreeOn

variable {tags : List String} {g h : TagGraph}

theorem map_roleOf (hagree : AgreeOn tags g h) : tags.map g.roleOf = tags.map h.roleOf :=
  List.map_congr_left hagree

theorem category {v : View} (hagree : AgreeOn v.tags g h) (patterns : List Pattern) (statusOutputs : Nat) :
    Category.ofView v patterns g statusOutputs = Category.ofView v patterns h statusOutputs := by
  unfold Category.ofView
  rw [hagree.map_roleOf]

theorem isSafetyRelevant {v : View} (hagree : AgreeOn v.tags g h) (patterns : List Pattern)
    (category : Category) :
    Context.isSafetyRelevant v patterns category g = Context.isSafetyRelevant v patterns category h := by
  have hany : (v.tags.any fun t => g.roleOf t == .safety) = v.tags.any fun t => h.roleOf t == .safety := by
    have hmap := congrArg (List.any · (· == Role.safety)) hagree.map_roleOf
    simpa only [List.any_map, Function.comp_def] using hmap
  unfold Context.isSafetyRelevant
  rw [hany]

theorem topic {b : Branch} (hagree : AgreeOn b.tags g h) : b.topic g = b.topic h := by
  unfold Branch.topic
  rw [hagree.map_roleOf]

theorem branchGroups {v : View} (hagree : ∀ b ∈ v.circuit.branches, AgreeOn b.tags g h) :
    BranchGroup.ofView v g = BranchGroup.ofView v h := by
  unfold BranchGroup.ofView
  split
  · rfl
  · exact List.foldl_ext _ _ [] fun groups b hb => by rw [(hagree b hb).topic]

end TagGraph.AgreeOn

namespace TagGraph

/-- The name of a tag and its declaration tell the role that the graph has for it. -/
theorem roleOf_ofProject {p : Project} {tag : String} (h : ((ofProject p).get? tag).isSome) :
    (ofProject p).roleOf tag = Role.ofTag tag ((p.declaredTags.get? tag).bind (·.description)) := by
  unfold roleOf
  rw [get?_ofProject] at h ⊢
  split at h
  · next hmem => simp only [if_pos hmem, TagUsage.describe, TagUsage.met, TagUsage.ofName]
  · cases h

/-- Two projects that have a rung agree on the roles of its tags if their declarations tell the same
about them. -/
theorem agreeOn_ofProject_of_ofTag {p q : Project} {program routine : String} {rung : Rung}
    (hp : p.HasRung program routine rung) (hq : q.HasRung program routine rung)
    (htags : ∀ tag ∈ (View.ofRung program routine rung).tags,
      Role.ofTag tag ((p.declaredTags.get? tag).bind (·.description)) =
        Role.ofTag tag ((q.declaredTags.get? tag).bind (·.description))) :
    AgreeOn (View.ofRung program routine rung).tags (ofProject p) (ofProject q) := by
  intro tag htag
  have hinP := isSome_get?_iff_mem_tags.2 ⟨program, routine, rung, hp, htag⟩
  have hinQ := isSome_get?_iff_mem_tags.2 ⟨program, routine, rung, hq, htag⟩
  rw [roleOf_ofProject hinP, roleOf_ofProject hinQ]
  exact htags tag htag

theorem agreeOn_ofProject {p q : Project} (hdeclared : p.declaredTags = q.declaredTags)
    {program routine : String} {rung : Rung} (hp : p.HasRung program routine rung)
    (hq : q.HasRung program routine rung) :
    AgreeOn (View.ofRung program routine rung).tags (ofProject p) (ofProject q) :=
  agreeOn_ofProject_of_ofTag hp hq fun _ _ => by rw [hdeclared]

end TagGraph

theorem View.mem_tags_of_mem_branch {program routine : String} {rung : Rung} (h : rung.instructions = [])
    {b : Branch} (hb : b ∈ (ofRung program routine rung).circuit.branches) {tag : String} (htag : tag ∈ b.tags) :
    tag ∈ (ofRung program routine rung).tags := by
  obtain ⟨i, hi, operand, usage, hop, -, hoperand, rfl⟩ := mem_tagsUsed.1 htag
  have hcircuit : i ∈ (ofRung program routine rung).circuit.instructions := by
    have hbranches : i ∈ (ofRung program routine rung).circuit.branches.flatMap (·.instructions) :=
      List.mem_flatMap.2 ⟨b, hb, hi⟩
    exact List.mem_append_left _ (List.mem_append_right _ hbranches)
  rw [instructions_circuit_ofRung h] at hcircuit
  refine mem_tags.2 ⟨usage, ?_⟩
  rw [tagsFor_ofRung]
  exact mem_tagsUsed.2 ⟨i, hcircuit, operand, usage, hop, by simp, hoperand, rfl⟩

namespace Context

/-- What stands in the other rungs of a project, be it malformed, tells on nothing that is concluded
about a rung but its related rungs and its key points. If the rung has instructions besides its
text, its branches may have tags that only other rungs make known, so that their groups may differ. -/
theorem ofView_isolated {p q : Project} (hdeclared : p.declaredTags = q.declaredTags)
    {program routine : String} {rung : Rung} (hp : p.HasRung program routine rung)
    (hq : q.HasRung program routine rung) (settings : Settings) :
    let a := ofView (View.ofRung program routine rung) (.ofProject p) settings
    let b := ofView (View.ofRung program routine rung) (.ofProject q) settings
    b = { a with relatedRungs := b.relatedRungs, keyPoints := b.keyPoints, branchGroups := b.branchGroups } ∧
      (rung.instructions = [] → b.branchGroups = a.branchGroups) := by
  intro a b
  have hagree := TagGraph.agreeOn_ofProject hdeclared hp hq
  constructor
  · simp only [a, b, ofView, hagree.category, hagree.isSafetyRelevant]
  · intro hnone
    have hbranches : ∀ branch ∈ (View.ofRung program routine rung).circuit.branches,
        TagGraph.AgreeOn branch.tags (.ofProject p) (.ofProject q) :=
      fun branch hbranch tag htag => hagree tag (View.mem_tags_of_mem_branch hnone hbranch htag)
    have hgroups := TagGraph.AgreeOn.branchGroups hbranches
    simp only [a, b, ofView, hgroups]

theorem ofView_isolated_malformed :
    let rung : Rung := { number := 1, text := "[XIC(X1),XIC(PB_Start)] OTE(M1)" }
    let x1 : Tag := { name := "X1", description := some "door switch" }
    let routine (rungs : List Rung) : List Routine := [{ name := "R1", rungs }]
    let p : Project := { programs := [{ name := "Main", routines := routine [rung] }], tags := [x1] }
    let q : Project :=
      { programs := [{
          name := "Main", tags := [x1]
          routines := routine
            [{ number := 2, text := "[XIC(X1) ]) (OTE(Y" }, rung, { number := 3, text := "OTU(M1" }] }] }
    let v := View.ofRung "Main" "R1" rung
    (p.declaredTags = q.declaredTags ∧ p.HasRung "Main" "R1" rung ∧ q.HasRung "Main" "R1" rung) ∧
      (v.relatedRungs (.ofProject p) = [] ∧ v.relatedRungs (.ofProject q) = [2, 3]) ∧
      (ofView v (.ofProject q) {}).branchGroups = (ofView v (.ofProject p) {}).branchGroups := by
  intro rung x1 routine p q v
  have hdeclared : p.declaredTags = q.declaredTags := by decide +kernel
  have hp : p.HasRung "Main" "R1" rung := by decide +kernel
  have hq : q.HasRung "Main" "R1" rung := by decide +kernel
  refine ⟨⟨hdeclared, hp, hq⟩, ⟨by decide +kernel, by decide +kernel⟩, ?_⟩
  exact (ofView_isolated hdeclared hp hq {}).2 rfl

end Context

end LadderLogic
