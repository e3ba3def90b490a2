import LadderLogic.Pattern.Basic
import LadderLogic.Tag.Graph

/-! The category of a rung: a cascade over its patterns, the roles of its tags and its opcodes. -/
namespace LadderLogic

inductive Category where
  | safety
  | sequenceControl
  | motorControl
  | valveControl
  | panelInterface
  | statusMonitoring
  | zoneControl
  | timerLogic
  | counterLogic
  | calculation
  | dataMove
  | faultHandling
  | generalLogic
deriving DecidableEq

namespace Category

def all : List Category :=
  [.safety, .sequenceControl, .motorControl, .valveControl, .panelInterface, .statusMonitoring,
   .zoneControl, .timerLogic, .counterLogic, .calculation, .dataMove, .faultHandling, .generalLogic]

def name : Category → String
  | .safety => "safety"
  | .sequenceControl => "sequence_control"
  | .motorControl => "motor_control"
  | .valveControl => "valve_control"
  | .panelInterface => "hmi_interface"
  | .statusMonitoring => "status_monitoring"
  | .zoneControl => "zone_control"
  | .timerLogic => "timer_logic"
  | .counterLogic => "counter_logic"
  | .calculation => "calculation"
  | .dataMove => "data_move"
  | .faultHandling => "fault_handling"
  | .generalLogic => "general_logic"

/-- Patterns that decide, the weightiest first. -/
def ofPatterns : List (PatternKind × Category) :=
  [(.safetyInterlock, .safety), (.sequencer, .sequenceControl), (.startStopCircuit, .motorControl),
   (.statusMonitoring, .statusMonitoring), (.zoneControl, .zoneControl), (.timerDelay, .timerLogic),
   (.counterAccumulator, .counterLogic)]

/-- Roles that decide wherever they stand. -/
def ofStrongRole : Role → Option Category
  | .safety => some .safety
  | .sequence => some .sequenceControl
  | _ => none

/-- Roles that decide if no strong one does. -/
def ofWeakRole : Role → Option Category
  | .motor => some .motorControl
  | .valve => some .valveControl
  | .panel => some .panelInterface
  | _ => none

/-- What patterns and roles leave open is decided by the opcodes, then by faults. -/
def ofOpcodes (v : View) (isFault : Bool) : Category :=
  if v.hasOpcode Opcode.arithmetic || v.hasOpcode Opcode.calculations then .calculation
  else if v.hasOpcode Opcode.copies then .dataMove
  else if isFault then .faultHandling
  else .generalLogic

/-- The category of a rung. A status rung with `statusOutputs` outputs is one whatever else it shows. -/
def ofView (v : View) (patterns : List Pattern) (graph : TagGraph) (statusOutputs : Nat) : Category :=
  let fired := Pattern.fired patterns
  let roles := v.tags.map graph.roleOf
  if fired .statusMonitoring && statusOutputs ≤ v.outputs.length then .statusMonitoring
  else match ofPatterns.find? fun (kind, _) => fired kind with
    | some (_, category) => category
    | none => match roles.findSome? ofStrongRole with
      | some category => category
      | none => match roles.findSome? ofWeakRole with
        | some category => category
        | none => ofOpcodes v (fired .faultDetection || roles.contains .fault)

end Category

end LadderLogic
