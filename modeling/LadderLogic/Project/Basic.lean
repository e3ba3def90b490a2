import LadderLogic.Text.Blank
import LadderLogic.Text.Letter
import LadderLogic.Text.Listing

/-! A controller project: programs of routines of rungs, and the tables of declared tags. -/
namespace LadderLogic

/-- An instruction call such as `XIC(Start)`. -/
structure Instruction where
  /-- The opcode as written. -/
  kind : String
  operands : List String := []
  branchLeg : Option UInt32 := none
  branchLevel : Option UInt32 := none
  branchStart : Option Bool := none
deriving DecidableEq

/-- One row of ladder logic, as text, as a list of instructions or both. -/
structure Rung where
  number : UInt32
  comment : Option String := none
  text : String := ""
  instructions : List Instruction := []
deriving DecidableEq

structure Routine where
  name : String
  /-- The language of the routine. -/
  kind : String := ""
  rungs : List Rung := []
deriving DecidableEq

/-- A declared tag. -/
structure Tag where
  name : String
  dataType : String := ""
  /-- The program that owns the tag, or the controller. -/
  scope : String := "controller"
  description : Option String := none
deriving DecidableEq

structure Program where
  name : String
  routines : List Routine := []
  tags : List Tag := []
deriving DecidableEq

structure Project where
  programs : List Program := []
  /-- The tags of the controller. -/
  tags : List Tag := []
deriving DecidableEq

namespace Instruction

/-- The opcode without blanks around it and in upper case. -/
def opcode (i : Instruction) : String :=
  Text.upper (Text.trim i.kind)

/-- The instruction has one of the opcodes; case does not matter. -/
def hasOpcode (i : Instruction) (opcodes : List String) : Bool :=
  opcodes.any fun op => Text.upper op == i.opcode

/-- The call as text. -/
def render (i : Instruction) : String :=
  i.kind ++ "(" ++ Text.joined "," i.operands ++ ")"

end Instruction

/-- Where a rung stands in a project. -/
structure Location where
  program : String
  routine : String
  number : UInt32
deriving DecidableEq

/-- The name under which a rung's results are filed. -/
def Location.key (l : Location) : String :=
  l.program ++ "/" ++ l.routine ++ ":" ++ toString l.number.toNat

/-- All rungs with their locations, in order. -/
def Project.rungs (p : Project) : List (Location × Rung) :=
  p.programs.flatMap fun program => program.routines.flatMap fun routine =>
    routine.rungs.map fun rung => (⟨program.name, routine.name, rung.number⟩, rung)

end LadderLogic
