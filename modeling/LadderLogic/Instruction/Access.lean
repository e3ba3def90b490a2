import LadderLogic.Project.Basic
import LadderLogic.Instruction.Operand

/-! Families of opcodes, and which operands an instruction reads and writes. -/
namespace LadderLogic

namespace Opcode

def writes : List String := ["OTE", "OTL", "OTU", "RES", "TON", "TOF", "RTO", "CTU", "CTD"]

def comparisons : List String := ["EQU", "NEQ", "LES", "LEQ", "GRT", "GEQ", "LIM", "MEQ", "CMP"]

def reads : List String := ["XIC", "XIO", "ONS", "OSR", "OSF"]

def copies : List String := ["MOV", "COP", "FLL"]

def arithmetic : List String := ["ADD", "SUB", "MUL", "DIV", "AND", "OR", "XOR"]

def calculations : List String := ["CPT", "SQR", "NEG", "ABS", "MOD", "SCP", "SCL"]

def timers : List String := ["TON", "TOF", "RTO"]

def counters : List String := ["CTU", "CTD"]

def oneShots : List String := ["ONS", "OSR", "OSF"]

def coils : List String := ["OTE", "OTL", "OTU"]

def contacts : List String := ["XIC", "XIO"]

end Opcode

inductive Usage where
  | read
  | write
deriving DecidableEq

namespace Usage

def all : List Usage := [.read, .write]

def name : Usage → String
  | .read => "read"
  | .write => "write"

end Usage

/-- How an opcode touches its operands. -/
inductive Access where
  /-- Coils, timers and counters own every operand. -/
  | writesAll
  /-- Contacts, one-shots and comparisons only read. -/
  | readsAll
  /-- The first operand is read, the second one written. -/
  | copies
  /-- Two operands are read, the third one is written. -/
  | computes
  /-- After the routine and the number of parameters, the parameters are read. -/
  | calls
  /-- The opcode is not known; its operands are not tracked. -/
  | unknown
deriving DecidableEq

namespace Access

def ofOpcode (opcode : String) : Access :=
  if Opcode.writes.contains opcode then .writesAll
  else if Opcode.reads.contains opcode || Opcode.comparisons.contains opcode then .readsAll
  else if Opcode.copies.contains opcode then .copies
  else if Opcode.arithmetic.contains opcode then .computes
  else if opcode == "JSR" then .calls
  else .unknown

/-- The use of the operand at a position, counted from zero. -/
def usage? : Access → Nat → Option Usage
  | .writesAll, _ => some .write
  | .readsAll, _ => some .read
  | .copies, 0 => some .read
  | .copies, 1 => some .write
  | .computes, 0 => some .read
  | .computes, 1 => some .read
  | .computes, 2 => some .write
  | .calls, 0 => none
  | .calls, 1 => none
  | .calls, _ => some .read
  | _, _ => none

end Access

namespace Instruction

def access (i : Instruction) : Access :=
  .ofOpcode i.opcode

/-- The operands with a use, as written. -/
def usedOperands (i : Instruction) : List (String × Usage) :=
  i.operands.zipIdx.filterMap fun (operand, n) => (i.access.usage? n).map (operand, ·)

end Instruction

end LadderLogic
