import LadderLogic.Instruction.Access
import LadderLogic.Rung.Circuit

/-! What the rules look at: one rung with its instructions, its circuit and its tags. -/
namespace LadderLogic

structure View where
  location : Location
  instructions : List Instruction
  /-- The text of the rung, or of its instructions if it has no text. -/
  text : String
  circuit : Circuit
  /-- The tags that are read, once each. -/
  inputs : List String
  /-- The tags that are written, once each. -/
  outputs : List String

namespace View

/-- The tags that instructions use, once each and in order. -/
def tagsUsed (instructions : List Instruction) (wanted : Usage → Bool) : List String :=
  ((instructions.flatMap Instruction.usedOperands).filterMap fun (operand, usage) =>
    let tag := Text.trim operand
    if Operand.isTag tag && wanted usage then some tag else none).eraseDups

def textOf (rung : Rung) (instructions : List Instruction) : String :=
  if Text.isBlankText rung.text then Text.joined " " (instructions.map Instruction.render) else rung.text

def ofRung (program routine : String) (rung : Rung) : View :=
  let instructions := rung.allInstructions
  let text := textOf rung instructions
  { location := ⟨program, routine, rung.number⟩
    instructions
    text
    circuit := Circuit.ofText text
    inputs := tagsUsed instructions (· == .read)
    outputs := tagsUsed instructions (· == .write) }

/-- Inputs, then outputs, once each. -/
def tags (v : View) : List String :=
  (v.inputs ++ v.outputs).eraseDups

def having (v : View) (opcodes : List String) : List Instruction :=
  v.instructions.filter (·.hasOpcode opcodes)

def hasOpcode (v : View) (opcodes : List String) : Bool :=
  v.instructions.any (·.hasOpcode opcodes)

def countOpcodes (v : View) (opcodes : List String) : Nat :=
  (v.having opcodes).length

/-- The tags that instructions with these opcodes use. -/
def usedBy (v : View) (opcodes : List String) : List String :=
  tagsUsed (v.having opcodes) fun _ => true

def readBy (v : View) (opcodes : List String) : List String :=
  tagsUsed (v.having opcodes) (· == .read)

def writtenBy (v : View) (opcodes : List String) : List String :=
  tagsUsed (v.having opcodes) (· == .write)

/-- The paths through the rung. If its text has no instruction, all its instructions make one path. -/
def paths (v : View) : List (List Instruction) :=
  if v.circuit.instructions.isEmpty then [v.instructions] else v.circuit.paths

/-- A contact or comparison decides about a coil. -/
def gatesOutput (v : View) : Bool :=
  v.hasOpcode (Opcode.contacts ++ Opcode.comparisons) && v.hasOpcode Opcode.coils

end View

end LadderLogic
