import LadderLogic.Context.CrossReference
import LadderLogic.Proofs.Instruction.Operand
import LadderLogic.Proofs.Sorted
import LadderLogic.Proofs.Tag.References

/-! Rungs that share tags, by the tag graph and by the views of the rungs. -/
namespace LadderLogic

theorem Instruction.mem_usedOperands {i : Instruction} {operand : String} {usage : Usage} :
    (operand, usage) ∈ i.usedOperands ↔
      ∃ n, (operand, n) ∈ i.operands.zipIdx ∧ i.access.usage? n = some usage := by
  simp only [usedOperands, List.mem_filterMap, Option.map_eq_some_iff, Prod.mk.injEq]
  constructor
  · rintro ⟨⟨operand', n⟩, hn, _, hu, rfl, rfl⟩
    exact ⟨n, hn, hu⟩
  · rintro ⟨n, hn, hu⟩
    exact ⟨(operand, n), hn, usage, hu, rfl, rfl⟩

theorem Instruction.mem_operandsUsing {i : Instruction} {location : Location} {tag : String} {usage : Usage}
    {r : Reference} :
    r ∈ i.operandsUsing location tag usage ↔ r = ⟨location, i.opcode, usage⟩ ∧
      ∃ operand, (operand, usage) ∈ i.usedOperands ∧ Operand.isTag operand ∧ Text.trim operand = tag := by
  simp only [operandsUsing, List.mem_filterMap, Option.ite_none_right_eq_some, Option.some.injEq,
    mem_usedOperands]
  constructor
  · rintro ⟨⟨operand, n⟩, hn, ⟨hu, htag, rfl⟩, rfl⟩
    exact ⟨rfl, operand, ⟨n, hn, hu⟩, htag, rfl⟩
  · rintro ⟨rfl, operand, ⟨n, hn, hu⟩, htag, rfl⟩
    exact ⟨(operand, n), hn, ⟨hu, htag, rfl⟩, rfl⟩

namespace View

theorem mem_tagsUsed {is : List Instruction} {wanted : Usage → Bool} {tag : String} :
    tag ∈ tagsUsed is wanted ↔ ∃ i ∈ is, ∃ operand usage, (operand, usage) ∈ i.usedOperands ∧
      wanted usage ∧ Operand.isTag operand ∧ Text.trim operand = tag := by
  simp only [tagsUsed, List.mem_eraseDups, List.mem_filterMap, List.mem_flatMap, Operand.isTag_trim,
    Bool.and_eq_true, Option.ite_none_right_eq_some, Option.some.injEq]
  constructor
  · rintro ⟨⟨operand, usage⟩, ⟨i, hi, hop⟩, ⟨htag, hw⟩, rfl⟩
    exact ⟨i, hi, operand, usage, hop, hw, htag, rfl⟩
  · rintro ⟨i, hi, operand, usage, hop, hw, htag, rfl⟩
    exact ⟨(operand, usage), ⟨i, hi, hop⟩, ⟨htag, hw⟩, rfl⟩

section Used
variable {is : List Instruction} {wanted : Usage → Bool} {tag : String} (h : tag ∈ tagsUsed is wanted)
include h

theorem trim_eq_of_mem_tagsUsed : Text.trim tag = tag := by
  obtain ⟨_, -, operand, _, -, -, -, rfl⟩ := mem_tagsUsed.1 h
  exact Text.trim_trim operand

theorem isTag_of_mem_tagsUsed : Operand.isTag tag = true := by
  obtain ⟨_, -, operand, _, -, -, htag, rfl⟩ := mem_tagsUsed.1 h
  rw [Operand.isTag_trim]
  exact htag

end Used

/-- The inputs or the outputs. -/
def tagsFor (v : View) : Usage → List String
  | .read => v.inputs
  | .write => v.outputs

theorem mem_tags {v : View} {tag : String} : tag ∈ v.tags ↔ ∃ usage, tag ∈ v.tagsFor usage := by
  simp only [tags, List.mem_eraseDups, List.mem_append]
  constructor
  · rintro (h | h)
    · exact ⟨.read, h⟩
    · exact ⟨.write, h⟩
  · rintro ⟨_ | _, h⟩
    · exact Or.inl h
    · exact Or.inr h

theorem tagsFor_ofRung (program routine : String) (rung : Rung) (usage : Usage) :
    (ofRung program routine rung).tagsFor usage = tagsUsed rung.allInstructions (· == usage) := by
  cases usage <;> rfl

end View

/-- The references of the walk stand for the rungs whose views have the tag. -/
theorem Project.mem_location_operandsUsing {p : Project} {tag : String} {usage : Usage} {l : Location} :
    l ∈ (p.operandsUsing tag usage).map (·.location) ↔
      ∃ rung, (l, rung) ∈ p.rungs ∧ tag ∈ (View.ofRung l.program l.routine rung).tagsFor usage := by
  simp only [Project.operandsUsing_eq_flatMap_rungs, View.tagsFor_ofRung, View.mem_tagsUsed, List.mem_map,
    List.mem_flatMap, Instruction.mem_operandsUsing, beq_iff_eq]
  constructor
  · rintro ⟨_, ⟨⟨l, rung⟩, hrung, i, hi, rfl, operand, hop, htag, rfl⟩, rfl⟩
    exact ⟨rung, hrung, i, hi, operand, usage, hop, rfl, htag, rfl⟩
  · rintro ⟨rung, hrung, i, hi, operand, _, hop, rfl, htag, rfl⟩
    exact ⟨_, ⟨(l, rung), hrung, i, hi, rfl, operand, hop, htag, rfl⟩, rfl⟩

theorem TagGraph.mem_rungsUsing {p : Project} {tag program routine : String} {usage : Usage} {n : UInt32} :
    n ∈ (ofProject p).rungsUsing tag program routine usage ↔
      ∃ rung, (⟨program, routine, n⟩, rung) ∈ p.rungs ∧
        tag ∈ (View.ofRung program routine rung).tagsFor usage := by
  rw [← Project.mem_location_operandsUsing (l := ⟨program, routine, n⟩)]
  unfold rungsUsing
  cases hget : (ofProject p).get? tag with
  | none => simp [operandsUsing_eq_nil_of_get?_eq_none hget usage]
  | some t =>
    rw [← mem_location_firstPerRung, ← referencesFor_of_get?_ofProject hget usage]
    simp only [mem_ascending, List.mem_map, List.mem_filter, Bool.and_eq_true, beq_iff_eq]
    constructor
    · rintro ⟨r, ⟨hr, rfl, rfl⟩, rfl⟩
      exact ⟨r, hr, rfl⟩
    · rintro ⟨r, hr, hl⟩
      exact ⟨r, ⟨hr, by simp [hl], by simp [hl]⟩, by simp [hl]⟩

namespace View

/-- Two rungs use a tag in common, in whatever way each of them uses it. -/
def SharesTag (v w : View) : Prop :=
  ∃ tag ∈ v.tags, tag ∈ w.tags

theorem SharesTag.symm {v w : View} (h : v.SharesTag w) : w.SharesTag v := by
  obtain ⟨tag, hv, hw⟩ := h
  exact ⟨tag, hw, hv⟩

theorem mem_othersUsing {v : View} {g : TagGraph} {tag : String} {usage : Usage} {n : UInt32} :
    n ∈ v.othersUsing g tag usage ↔
      n ≠ v.location.number ∧ n ∈ g.rungsUsing tag v.location.program v.location.routine usage := by
  simp only [othersUsing, List.mem_filter, bne_iff_ne, and_comm]

theorem mem_relatedRungs {p : Project} {program routine : String} {rung : Rung} {n : UInt32} :
    n ∈ (ofRung program routine rung).relatedRungs (.ofProject p) ↔ n ≠ rung.number ∧
      ∃ other, (⟨program, routine, n⟩, other) ∈ p.rungs ∧
        (ofRung program routine rung).SharesTag (ofRung program routine other) := by
  simp only [relatedRungs, mem_ascending, List.mem_flatMap, List.mem_append, mem_othersUsing]
  constructor
  · rintro ⟨tag, htag, ⟨hne, hn⟩ | ⟨hne, hn⟩⟩ <;>
      obtain ⟨other, hother, hused⟩ := TagGraph.mem_rungsUsing.1 hn <;>
      exact ⟨hne, other, hother, tag, htag, mem_tags.2 ⟨_, hused⟩⟩
  · rintro ⟨hne, other, hother, tag, htag, hused⟩
    obtain ⟨_ | _, hused⟩ := mem_tags.1 hused
    · exact ⟨tag, htag, Or.inl ⟨hne, TagGraph.mem_rungsUsing.2 ⟨other, hother, hused⟩⟩⟩
    · exact ⟨tag, htag, Or.inr ⟨hne, TagGraph.mem_rungsUsing.2 ⟨other, hother, hused⟩⟩⟩

/-- The rungs related to a rung are, in strictly ascending order, the numbers other than its own at
which its routine has a rung that shares a tag with it. So the relation is symmetric, and what other
routines hold does not matter. -/
theorem relatedRungs_ofProject (p : Project) (program routine : String) :
    (∀ rung : Rung,
      ((ofRung program routine rung).relatedRungs (.ofProject p)).Pairwise (· < ·) ∧
        ∀ n, n ∈ (ofRung program routine rung).relatedRungs (.ofProject p) ↔ n ≠ rung.number ∧
          ∃ other, (⟨program, routine, n⟩, other) ∈ p.rungs ∧
            (ofRung program routine rung).SharesTag (ofRung program routine other)) ∧
      (∀ a b : Rung, (⟨program, routine, a.number⟩, a) ∈ p.rungs →
        (⟨program, routine, b.number⟩, b) ∈ p.rungs → a.number ≠ b.number →
        (ofRung program routine a).SharesTag (ofRung program routine b) →
        b.number ∈ (ofRung program routine a).relatedRungs (.ofProject p) ∧
          a.number ∈ (ofRung program routine b).relatedRungs (.ofProject p)) ∧
      ∀ q : Project,
        (∀ n rung, (⟨program, routine, n⟩, rung) ∈ q.rungs ↔ (⟨program, routine, n⟩, rung) ∈ p.rungs) →
        ∀ rung : Rung, (ofRung program routine rung).relatedRungs (.ofProject q) =
          (ofRung program routine rung).relatedRungs (.ofProject p) := by
  refine ⟨fun rung => ⟨pairwise_ascending _, fun n => mem_relatedRungs⟩, ?_, ?_⟩
  · intro a b ha hb hne hshare
    exact ⟨mem_relatedRungs.2 ⟨hne.symm, b, hb, hshare⟩, mem_relatedRungs.2 ⟨hne, a, ha, hshare.symm⟩⟩
  · intro q hsame rung
    apply (pairwise_ascending _).eq_of_mem_iff (pairwise_ascending _)
    intro n
    rw [← relatedRungs, ← relatedRungs, mem_relatedRungs, mem_relatedRungs]
    simp only [hsame]

theorem relatedRungs_ofProject_writer_reader :
    let a : Rung := { number := 7, text := "XIC(Start) OTE(Run)" }
    let b : Rung := { number := 3, text := "XIO( Run ) OTE(Idle)" }
    let p : Project :=
      { programs := [{ name := "Main", routines := [{ name := "R1", rungs := [a, b] }] }] }
    3 ∈ (ofRung "Main" "R1" a).relatedRungs (.ofProject p) ∧
      7 ∈ (ofRung "Main" "R1" b).relatedRungs (.ofProject p) := by
  intro a b p
  exact (relatedRungs_ofProject p "Main" "R1").2.1 a b (by decide +kernel) (by decide +kernel)
    (by decide +kernel) ⟨"Run", by decide +kernel, by decide +kernel⟩

end View

end LadderLogic
