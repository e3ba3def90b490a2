import LadderLogic.Proofs.Instruction.Operand
import LadderLogic.Rung.View
import LadderLogic.Tag.Graph
import Mathlib.Data.List.Forall2

/-! Spellings of instructions: the blanks around opcode and operands, the letter case of the opcode, and the
place among branches. -/
namespace LadderLogic

theorem map_eq_of_forall₂ {R : α → β → Prop} {f : α → γ} {g : β → γ} {as : List α} {bs : List β}
    (h : List.Forall₂ R as bs) (hfg : ∀ a b, R a b → f a = g b) : as.map f = bs.map g := by
  rw [← List.forall₂_eq_eq_eq, List.forall₂_map_left_iff, List.forall₂_map_right_iff]
  exact h.imp hfg

namespace Instruction

/-- The operands with a use, without the blanks around them. -/
def uses (i : Instruction) : List (String × Usage) :=
  i.usedOperands.map fun (operand, usage) => (Text.trim operand, usage)

theorem uses_eq (i : Instruction) :
    i.uses = (i.operands.map Text.trim).zipIdx.filterMap fun (tag, n) => (i.access.usage? n).map (tag, ·) := by
  simp only [uses, usedOperands, List.map_filterMap, List.zipIdx_map, List.filterMap_map, Option.map_map,
    Function.comp_def, Prod.map, id_eq]

/-- The same call in another spelling. -/
structure Respells (i j : Instruction) : Prop where
  kind : Text.upper (Text.trim i.kind) = Text.upper (Text.trim j.kind)
  operands : i.operands.map Text.trim = j.operands.map Text.trim

theorem Respells.refl (i : Instruction) : i.Respells i :=
  ⟨rfl, rfl⟩

namespace Respells
variable {i j : Instruction} (h : i.Respells j)
include h

theorem opcode : i.opcode = j.opcode :=
  h.kind

theorem hasOpcode (opcodes : List String) : i.hasOpcode opcodes = j.hasOpcode opcodes := by
  rw [Instruction.hasOpcode, Instruction.hasOpcode, h.opcode]

theorem access : i.access = j.access := by
  rw [Instruction.access, Instruction.access, h.opcode]

theorem uses : i.uses = j.uses := by
  rw [uses_eq, uses_eq, h.operands, h.access]

theorem getElem?_operands (n : Nat) : i.operands[n]?.map Text.trim = j.operands[n]?.map Text.trim := by
  rw [← List.getElem?_map, ← List.getElem?_map, h.operands]

theorem head?_operands : i.operands.head?.map Text.trim = j.operands.head?.map Text.trim := by
  rw [← List.head?_map, ← List.head?_map, h.operands]

end Respells

end Instruction

open Instruction (Respells)

theorem flatMap_eq_of_forall₂ {R : α → β → Prop} {f : α → List γ} {g : β → List γ} {as : List α} {bs : List β}
    (h : List.Forall₂ R as bs) (hfg : ∀ a b, R a b → f a = g b) : as.flatMap f = bs.flatMap g := by
  rw [List.flatMap_def, List.flatMap_def, map_eq_of_forall₂ h hfg]

theorem filter_hasOpcode_of_respells {is js : List Instruction} (h : List.Forall₂ Respells is js)
    (opcodes : List String) :
    List.Forall₂ Respells (is.filter (·.hasOpcode opcodes)) (js.filter (·.hasOpcode opcodes)) := by
  refine List.rel_filter ?_ h
  intro i j hij
  simp only [hij.hasOpcode]

namespace View

theorem tagsUsed_eq_flatMap_uses (is : List Instruction) (wanted : Usage → Bool) :
    tagsUsed is wanted = ((is.flatMap Instruction.uses).filterMap fun (tag, usage) =>
      if Operand.isTag tag && wanted usage then some tag else none).eraseDups := by
  simp only [tagsUsed, Instruction.uses, List.filterMap_flatMap, List.filterMap_map, Function.comp_def]

theorem tagsUsed_eq_of_respells {is js : List Instruction} (h : List.Forall₂ Respells is js)
    (wanted : Usage → Bool) : tagsUsed is wanted = tagsUsed js wanted := by
  have huses : is.flatMap Instruction.uses = js.flatMap Instruction.uses :=
    flatMap_eq_of_forall₂ h fun _ _ hij => hij.uses
  rw [tagsUsed_eq_flatMap_uses, tagsUsed_eq_flatMap_uses, huses]

/-- The same view of a rung in another spelling of its instructions. -/
structure Respells (v w : View) : Prop where
  location : v.location = w.location
  instructions : List.Forall₂ Instruction.Respells v.instructions w.instructions
  text : v.text = w.text
  circuit : v.circuit = w.circuit
  inputs : v.inputs = w.inputs
  outputs : v.outputs = w.outputs

namespace Respells
variable {v w : View} (h : v.Respells w)
include h

theorem tags : v.tags = w.tags := by
  rw [View.tags, View.tags, h.inputs, h.outputs]

theorem having (opcodes : List String) :
    List.Forall₂ Instruction.Respells (v.having opcodes) (w.having opcodes) :=
  filter_hasOpcode_of_respells h.instructions opcodes

theorem hasOpcode (opcodes : List String) : v.hasOpcode opcodes = w.hasOpcode opcodes := by
  have hmap : v.instructions.map (·.hasOpcode opcodes) = w.instructions.map (·.hasOpcode opcodes) :=
    map_eq_of_forall₂ h.instructions fun _ _ hij => hij.hasOpcode opcodes
  have hany := congrArg (List.any · id) hmap
  simpa only [View.hasOpcode, List.any_map, Function.comp_def, id_eq] using hany

theorem countOpcodes (opcodes : List String) : v.countOpcodes opcodes = w.countOpcodes opcodes :=
  (h.having opcodes).length_eq

theorem usedBy (opcodes : List String) : v.usedBy opcodes = w.usedBy opcodes :=
  tagsUsed_eq_of_respells (h.having opcodes) _

theorem readBy (opcodes : List String) : v.readBy opcodes = w.readBy opcodes :=
  tagsUsed_eq_of_respells (h.having opcodes) _

theorem writtenBy (opcodes : List String) : v.writtenBy opcodes = w.writtenBy opcodes :=
  tagsUsed_eq_of_respells (h.having opcodes) _

theorem gatesOutput : v.gatesOutput = w.gatesOutput := by
  rw [View.gatesOutput, View.gatesOutput, h.hasOpcode, h.hasOpcode]

end Respells

end View

namespace Rung

/-- The same rung, but for its comment, in another spelling of its instructions. -/
structure Respells (r s : Rung) : Prop where
  number : r.number = s.number
  text : r.text = s.text
  instructions : List.Forall₂ Instruction.Respells r.instructions s.instructions

theorem sightings_eq_flatMap_uses (location : Location) (r : Rung) :
    r.sightings location = r.allInstructions.flatMap fun i =>
      if i.access = .unknown then []
      else i.uses.filterMap fun (tag, usage) =>
        if Operand.isTag tag then some ⟨tag, location, i.opcode, usage⟩ else none := by
  simp only [sightings, Instruction.uses, List.filterMap_map, Function.comp_def, Operand.isTag_trim]

namespace Respells
variable {r s : Rung} (h : r.Respells s)
include h

theorem allInstructions : List.Forall₂ Instruction.Respells r.allInstructions s.allInstructions := by
  have hlength := h.instructions.length_eq
  have hempty : r.instructions.isEmpty = s.instructions.isEmpty := by
    rw [Bool.eq_iff_iff, List.isEmpty_iff_length_eq_zero, List.isEmpty_iff_length_eq_zero, hlength]
  rw [Rung.allInstructions, Rung.allInstructions, hempty, h.text]
  split
  · exact List.forall₂_same.2 fun i _ => Instruction.Respells.refl i
  · exact h.instructions

theorem sightings (location : Location) : r.sightings location = s.sightings location := by
  rw [sightings_eq_flatMap_uses, sightings_eq_flatMap_uses]
  refine flatMap_eq_of_forall₂ h.allInstructions fun i j hij => ?_
  rw [hij.access, hij.uses, hij.opcode]

theorem textOf (htext : Text.isBlankText r.text = false) :
    View.textOf r r.allInstructions = View.textOf s s.allInstructions := by
  rw [View.textOf, View.textOf, ← h.text, htext]
  rfl

/-- The views agree if the text is not made from the instructions. -/
theorem view (htext : Text.isBlankText r.text = false) (program routine : String) :
    (View.ofRung program routine r).Respells (View.ofRung program routine s) where
  location := by simp only [View.ofRung, h.number]
  instructions := h.allInstructions
  text := h.textOf htext
  circuit := by simp only [View.ofRung, h.textOf htext]
  inputs := View.tagsUsed_eq_of_respells h.allInstructions (· == .read)
  outputs := View.tagsUsed_eq_of_respells h.allInstructions (· == .write)

end Respells

end Rung

end LadderLogic
