import LadderLogic.Proofs.Rung.Grammar
import LadderLogic.Proofs.Rung.Malformed
import LadderLogic.Proofs.Rung.Render
import LadderLogic.Proofs.Sorted
import LadderLogic.Tag.Graph
import Mathlib.Algebra.GroupWithZero.Nat
import Mathlib.Algebra.Order.BigOperators.Group.List
import Mathlib.Algebra.Order.Group.Nat

/-! How much a rung can have. A text has no more operands and no more branches than characters, whatever its
brackets are. -/
namespace LadderLogic

theorem length_intercalate_singleton (x : α) {parts : List (List α)} (h : parts ≠ []) :
    ([x].intercalate parts).length + 1 = (parts.map List.length).sum + parts.length := by
  induction parts with
  | nil => exact absurd rfl h
  | cons part parts ih =>
    cases parts with
    | nil => simp
    | cons part' parts =>
      have hrest := ih (List.cons_ne_nil _ _)
      rw [List.intercalate_cons_cons, List.map_cons, List.sum_cons, List.length_cons, List.length_append,
        List.length_append, List.length_singleton]
      omega

theorem Text.length_joined {separator : String} (hone : separator.length = 1) {ss : List String} (h : ss ≠ []) :
    (joined separator ss).length + 1 = (ss.map String.length).sum + ss.length := by
  obtain ⟨c, hc⟩ := List.length_eq_one_iff.1 (separator.length_toList.trans hone)
  have hlength := length_intercalate_singleton c (mt (List.map_eq_nil_iff (f := String.toList)).1 h)
  rwa [← hc, ← toList_joined, String.length_toList, List.map_map, List.length_map] at hlength

theorem length_eraseDups_le [BEq α] [LawfulBEq α] (xs : List α) : xs.eraseDups.length ≤ xs.length :=
  (List.subperm_of_subset (nodup_eraseDups xs) fun _ h => List.mem_eraseDups.1 h).length_le

theorem Delimited.length_splitTopLevel (cs : List Char) :
    cs.length + 1 = ((splitTopLevel cs).map List.length).sum + (splitTopLevel cs).length := by
  have hlength := length_intercalate_singleton ',' (splitFrom_ne_nil 0 cs)
  rwa [intercalate_splitFrom] at hlength

namespace Instruction

/-- The operands of instructions, in order. -/
def operandsOf (is : List Instruction) : List String :=
  is.flatMap (·.operands)

@[simp] theorem operandsOf_nil : operandsOf [] = [] := rfl

@[simp] theorem operandsOf_cons (i : Instruction) (is : List Instruction) :
    operandsOf (i :: is) = i.operands ++ operandsOf is := rfl

@[simp] theorem operandsOf_append (is js : List Instruction) :
    operandsOf (is ++ js) = operandsOf is ++ operandsOf js :=
  List.flatMap_append

end Instruction

open Instruction (operandsOf)

namespace Call

theorem length_operands_le (cs : List Char) : (operands cs).length ≤ cs.length + 1 := by
  rw [Delimited.length_splitTopLevel]
  refine (List.length_filterMap_le _ _).trans ?_
  rw [List.length_map]
  exact Nat.le_add_left _ _

theorem Layout.length_operandsOf_calls_le (l : Layout) :
    (operandsOf (l.calls.map toInstruction)).length ≤ l.text.length := by
  induction l with
  | stop gap => exact Nat.zero_le _
  | unclosed gap name body =>
    have hbody := length_operands_le body
    simp only [calls, text, List.map_cons, List.map_nil, Instruction.operandsOf_cons,
      Instruction.operandsOf_nil, toInstruction, List.length_append, List.length_cons, List.length_nil]
    omega
  | call gap name body rest ih =>
    have hbody := length_operands_le body
    simp only [calls, text, List.map_cons, Instruction.operandsOf_cons, toInstruction, List.length_append,
      List.length_cons]
    omega

end Call

/-- The parenthesis of a call makes room for its first operand, and the commas for the others. -/
theorem Instruction.length_operandsOf_allIn_le (cs : List Char) :
    (operandsOf (allIn cs)).length ≤ cs.length := by
  obtain ⟨l, hvalid, rfl⟩ := Call.Layout.exists_valid cs
  rw [allIn, hvalid.all_text]
  exact l.length_operandsOf_calls_le

namespace Circuit

theorem length_operandsOf_branches_le (parts : List (List Char)) :
    (operandsOf ((parts.flatMap Call.all).map Call.toInstruction)).length ≤ (parts.map List.length).sum := by
  induction parts with
  | nil => exact Nat.le_refl 0
  | cons part parts ih =>
    have hpart := Instruction.length_operandsOf_allIn_le part
    rw [List.flatMap_cons, List.map_append, Instruction.operandsOf_append, List.length_append, List.map_cons,
      List.sum_cons]
    exact Nat.add_le_add hpart ih

theorem length_operandsOf_ofText_le (text : String) :
    (operandsOf (ofText text).instructions).length ≤ text.length := by
  rw [← String.length_toList]
  unfold ofText ofChars instructions
  cases hsplit : split? text.toList with
  | none => simpa using Instruction.length_operandsOf_allIn_le text.toList
  | some x =>
    have hlength := length_of_split? hsplit
    have hbefore := Instruction.length_operandsOf_allIn_le x.before
    have hafter := Instruction.length_operandsOf_allIn_le x.after
    have hparts := length_operandsOf_branches_le (Delimited.splitTopLevel x.group)
    have hgroup := Delimited.length_splitTopLevel x.group
    have hpos : 0 < (Delimited.splitTopLevel x.group).length :=
      List.length_pos_iff.2 (Delimited.splitFrom_ne_nil 0 x.group)
    simp only [flatMap_instructions_branches, Instruction.operandsOf_append, List.length_append]
    omega

theorem length_branches_ofText_le (text : String) : (ofText text).branches.length ≤ text.length := by
  rw [← String.length_toList]
  unfold ofText ofChars
  cases hsplit : split? text.toList with
  | none => exact Nat.zero_le _
  | some x =>
    have hlength := length_of_split? hsplit
    have hgroup := Delimited.length_splitTopLevel x.group
    simp only [List.length_map, List.length_zipIdx]
    omega

/-- Branches are numbered from zero on. -/
theorem map_index_branches (text : String) :
    (ofText text).branches.map (·.index) = List.range (ofText text).branches.length := by
  unfold ofText ofChars
  split
  · rfl
  · simp only [List.map_map, List.length_map, List.length_zipIdx, List.range_eq_range']
    exact List.zipIdx_map_snd 0 _

theorem index_lt_of_mem_branches {text : String} {b : Branch} (h : b ∈ (ofText text).branches) :
    b.index < (ofText text).branches.length := by
  have hindex : b.index ∈ (ofText text).branches.map (·.index) := List.mem_map_of_mem h
  rwa [map_index_branches, List.mem_range] at hindex

end Circuit

theorem Instruction.length_operands_le_render (i : Instruction) : i.operands.length ≤ i.render.length := by
  by_cases hnil : i.operands = []
  · simp [hnil]
  · have hlength := Text.length_joined (by decide : ",".length = 1) hnil
    have hparens : "(".length + ")".length = 2 := by decide
    simp only [render, String.length_append]
    omega

namespace Rung

/-- The length of what is written in a rung. Every instruction and the rung itself count for one
more. -/
def extent (r : Rung) : Nat :=
  r.text.length + (r.instructions.map fun i => i.render.length + 1).sum + 1

theorem length_operandsOf_le (r : Rung) : (operandsOf r.allInstructions).length ≤ r.extent := by
  unfold allInstructions extent
  split
  · have htext := Circuit.length_operandsOf_ofText_le r.text
    omega
  · have hgiven : (operandsOf r.instructions).length ≤
        (r.instructions.map fun i => i.render.length + 1).sum := by
      rw [operandsOf, List.length_flatMap]
      exact List.sum_le_sum fun i _ => i.length_operands_le_render.trans (Nat.le_succ _)
    omega

end Rung

theorem Instruction.length_usedOperands_le (i : Instruction) : i.usedOperands.length ≤ i.operands.length := by
  unfold usedOperands
  exact (List.length_filterMap_le _ _).trans_eq List.length_zipIdx

theorem Rung.length_sightings_le (location : Location) (r : Rung) :
    (r.sightings location).length ≤ r.extent := by
  refine Nat.le_trans ?_ r.length_operandsOf_le
  rw [sightings, operandsOf, List.length_flatMap, List.length_flatMap]
  refine List.sum_le_sum fun i _ => ?_
  split
  · exact Nat.zero_le _
  · exact (List.length_filterMap_le _ _).trans i.length_usedOperands_le

namespace View

theorem length_tagsUsed_le (is : List Instruction) (wanted : Usage → Bool) :
    (tagsUsed is wanted).length ≤ (operandsOf is).length := by
  refine (length_eraseDups_le _).trans ((List.length_filterMap_le _ _).trans ?_)
  rw [operandsOf, List.length_flatMap, List.length_flatMap]
  exact List.sum_le_sum fun i _ => i.length_usedOperands_le

theorem length_outputs_ofRung_le (program routine : String) (r : Rung) :
    (ofRung program routine r).outputs.length ≤ r.extent := by
  have houtputs : (ofRung program routine r).outputs = tagsUsed r.allInstructions (· == .write) := rfl
  rw [houtputs]
  exact (length_tagsUsed_le _ _).trans r.length_operandsOf_le

theorem length_text_ofRung_le (program routine : String) (r : Rung) :
    (ofRung program routine r).text.length ≤ r.extent := by
  simp only [ofRung, textOf, Rung.extent]
  split
  · next hblank =>
    rw [Rung.allInstructions_of_isBlankText hblank]
    by_cases hnil : r.instructions = []
    · simp [hnil, Text.joined]
    · have hlength := Text.length_joined (by decide : " ".length = 1)
        (mt (List.map_eq_nil_iff (f := Instruction.render)).1 hnil)
      rw [List.map_map, List.length_map, Function.comp_def] at hlength
      have hsum : (r.instructions.map fun i => i.render.length + 1).sum =
          (r.instructions.map fun i => i.render.length).sum + r.instructions.length := by
        rw [List.sum_map_add]
        simp
      omega
  · omega

end View

end LadderLogic
