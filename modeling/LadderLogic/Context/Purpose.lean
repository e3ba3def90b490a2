import LadderLogic.Context.Category
import LadderLogic.Vocabulary.Ending

/-! What a rung is for: a template with its arguments, and the sentence that says it. -/
namespace LadderLogic

inductive Template where
  | safetyInterlock
  | motorControl
  | sequence
  | statusReport
  | zoneControl
  | timerDelay
  | counter
  | latch
  | alarm
  | modeSelection
  | jog
  | panelUpdate
  | scaling
  | faultResponse
  | permissive
  | handshake
  | oneShot
  | comparison
  | calculation
  | dataMove
  | conditionalOutput
  | unconditionalOutput
  | inputOnly
  | empty
deriving DecidableEq

namespace Template

def all : List Template :=
  [.safetyInterlock, .motorControl, .sequence, .statusReport, .zoneControl, .timerDelay, .counter, .latch,
   .alarm, .modeSelection, .jog, .panelUpdate, .scaling, .faultResponse, .permissive, .handshake, .oneShot,
   .comparison, .calculation, .dataMove, .conditionalOutput, .unconditionalOutput, .inputOnly, .empty]

def name : Template → String
  | .safetyInterlock => "safety_interlock"
  | .motorControl => "motor_control"
  | .sequence => "sequence"
  | .statusReport => "status_report"
  | .zoneControl => "zone_control"
  | .timerDelay => "timer_delay"
  | .counter => "counter"
  | .latch => "latch"
  | .alarm => "alarm"
  | .modeSelection => "mode_selection"
  | .jog => "jog"
  | .panelUpdate => "hmi_update"
  | .scaling => "scaling"
  | .faultResponse => "fault_response"
  | .permissive => "permissive"
  | .handshake => "handshake"
  | .oneShot => "one_shot"
  | .comparison => "comparison"
  | .calculation => "calculation"
  | .dataMove => "data_move"
  | .conditionalOutput => "conditional_output"
  | .unconditionalOutput => "unconditional_output"
  | .inputOnly => "input_only"
  | .empty => "empty"

/-- The template of the weightiest pattern. A code concern has none. -/
def ofPatterns : List (PatternKind × Template) :=
  [(.safetyInterlock, .safetyInterlock), (.sequencer, .sequence), (.startStopCircuit, .motorControl),
   (.statusMonitoring, .statusReport), (.zoneControl, .zoneControl), (.timerDelay, .timerDelay),
   (.counterAccumulator, .counter), (.alarmAnnunciation, .alarm), (.latchUnlatch, .latch),
   (.modeSelection, .modeSelection), (.jogControl, .jog), (.panelWrite, .panelUpdate),
   (.dataScaling, .scaling), (.faultDetection, .faultResponse), (.permissiveChain, .permissive),
   (.handshake, .handshake), (.oneShot, .oneShot), (.comparisonBranch, .comparison)]

/-- The template of a rung without inputs, without outputs or with both. -/
def ofShape (v : View) : Template :=
  match v.inputs.isEmpty, v.outputs.isEmpty with
  | false, false => .conditionalOutput
  | true, false => .unconditionalOutput
  | false, true => .inputOnly
  | true, true => .empty

def ofView (v : View) (patterns : List Pattern) (category : Category) : Template :=
  if category = .statusMonitoring then .statusReport
  else match ofPatterns.find? fun (kind, _) => Pattern.fired patterns kind with
    | some (_, template) => template
    | none => match category with
      | .calculation => .calculation
      | .dataMove => .dataMove
      | .faultHandling => .faultResponse
      | _ => ofShape v

end Template

/-- What the name of an output says about the state that it reports. -/
inductive Intent where
  | stopped
  | running
  | ready
  | fault
  | ok
  | enable
  | complete
  | active
deriving DecidableEq

namespace Intent

def all : List Intent :=
  [.stopped, .running, .ready, .fault, .ok, .enable, .complete, .active]

def name : Intent → String
  | .stopped => "stopped"
  | .running => "running"
  | .ready => "ready"
  | .fault => "fault"
  | .ok => "ok"
  | .enable => "enable"
  | .complete => "complete"
  | .active => "active"

def phrase : Intent → String
  | .stopped => "stopped indication"
  | .running => "running indication"
  | .ready => "ready indication"
  | .fault => "fault indication"
  | .ok => "OK status"
  | .enable => "enable signal"
  | .complete => "completion flag"
  | .active => "active indication"

/-- Endings of names; the first that fits decides. -/
def endings : List (String × Intent) :=
  [("STOPPED", .stopped), ("RUNNING", .running), ("READY", .ready), ("FAULT", .fault), ("FLT", .fault),
   ("ENABLED", .enable), ("ENABLE", .enable), ("COMPLETED", .complete), ("COMPLETE", .complete),
   ("ACTIVE", .active), ("OK", .ok)]

def ofName? (name : String) : Option Intent :=
  (endings.find? fun (word, _) => Ending.endsIn name word).map (·.2)

end Intent

/-- The arguments that a purpose's sentence is made of. -/
structure Purpose where
  template : Template
  primaryOutput : Option String := none
  intent : Option Intent := none
  conditions : List String := []
  /-- How many outputs there are besides the primary one. -/
  extraOutputs : Nat := 0
  subsystems : List String := []
  safetyInputs : List String := []
deriving DecidableEq

namespace Purpose

/-- The first output whose name tells an intent, or else the first output. -/
def primaryOf (outputs : List String) : Option String :=
  match outputs.find? fun t => (Intent.ofName? t).isSome with
  | some t => some t
  | none => outputs.head?

/-- Inputs of emergency stops, guards and gates. -/
def isSafetyInput (tag : String) : Bool :=
  Vocabulary.emergencyStop.recognizes tag || Vocabulary.guard.recognizes tag || Vocabulary.gate.recognizes tag

def ofView (v : View) (patterns : List Pattern) (category : Category) (subsystems : List String) : Purpose :=
  let primary := primaryOf v.outputs
  { template := Template.ofView v patterns category
    primaryOutput := primary
    intent := primary.bind Intent.ofName?
    conditions := (v.readBy Opcode.contacts ++ v.readBy Opcode.comparisons).eraseDups
    extraOutputs := v.outputs.length - 1
    subsystems
    safetyInputs := v.inputs.filter isSafetyInput }

open Text (listing)

/-- The outputs as the sentence names them. -/
def target (p : Purpose) : String :=
  let first := match p.primaryOutput, p.intent with
    | some tag, some intent => tag ++ " (" ++ intent.phrase ++ ")"
    | some tag, none => tag
    | none, _ => "its outputs"
  if 0 < p.extraOutputs then first ++ " and " ++ toString p.extraOutputs ++ " other output(s)" else first

/-- The conditions as the sentence names them, or nothing. -/
def condition (p : Purpose) : String :=
  match p.conditions with
  | [] => ""
  | [name] => " when " ++ name ++ " is true"
  | names => " when " ++ listing names 4 ++ " are true"

/-- The sentence without subsystems and safety inputs. -/
def clause (p : Purpose) : String :=
  match p.template with
  | .safetyInterlock => "Safety interlock that drives " ++ p.target ++ " only" ++ p.condition
  | .motorControl => "Starts and stops " ++ p.target ++ p.condition
  | .sequence => "Sequence step logic driving " ++ p.target
  | .statusReport => "Reports status through " ++ p.target
  | .zoneControl => "Coordinates zone control for " ++ p.target ++ p.condition
  | .timerDelay => "Times a delay for " ++ p.target ++ p.condition
  | .counter => "Counts events into " ++ p.target ++ p.condition
  | .latch => "Latches " ++ p.target ++ p.condition ++ "; it holds until unlatched"
  | .alarm => "Annunciates alarm " ++ p.target ++ p.condition
  | .modeSelection => "Selects operating mode " ++ p.target ++ p.condition
  | .jog => "Jogs " ++ p.target ++ " while the jog input is held"
  | .panelUpdate => "Updates HMI tag " ++ p.target
  | .scaling => "Scales analog data into " ++ p.target
  | .faultResponse => "Handles faults by driving " ++ p.target ++ p.condition
  | .permissive =>
    "Energizes " ++ p.target ++ " only when all " ++ toString p.conditions.length ++ " permissives are true"
  | .handshake => "Request/acknowledge handshake driving " ++ p.target
  | .oneShot => "Pulses " ++ p.target ++ " for one scan" ++ p.condition
  | .comparison => "Compares values to set " ++ p.target
  | .calculation => "Calculates " ++ p.target
  | .dataMove => "Moves data into " ++ p.target
  | .conditionalOutput => "Sets " ++ p.target ++ p.condition
  | .unconditionalOutput => "Drives " ++ p.target ++ " unconditionally"
  | .inputOnly =>
    "Evaluates " ++ (if p.conditions.isEmpty then "inputs" else listing p.conditions 4)
      ++ " without driving an output"
  | .empty => "No analyzable logic"

/-- The sentence. -/
def sentence (p : Purpose) : String :=
  p.clause
    ++ (if p.subsystems.isEmpty then "" else " [" ++ listing p.subsystems 3 ++ " subsystem]")
    ++ (if p.safetyInputs.isEmpty then "" else ". Safety inputs: " ++ listing p.safetyInputs 4)

end Purpose

end LadderLogic
