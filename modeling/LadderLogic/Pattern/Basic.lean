import LadderLogic.Rung.View
import LadderLogic.Vocabulary.Subject
import LadderLogic.Number.Binary64

/-! Patterns: idioms of ladder logic that a rung can show. -/
namespace LadderLogic

/-- The patterns, in the order in which they are reported. -/
inductive PatternKind where
  | safetyInterlock
  | startStopCircuit
  | latchUnlatch
  | timerDelay
  | counterAccumulator
  | oneShot
  | faultDetection
  | handshake
  | sequencer
  | comparisonBranch
  | statusMonitoring
  | zoneControl
  | codeConcern
  | dataScaling
  | permissiveChain
  | alarmAnnunciation
  | modeSelection
  | jogControl
  | panelWrite
deriving DecidableEq

namespace PatternKind

def all : List PatternKind :=
  [.safetyInterlock, .startStopCircuit, .latchUnlatch, .timerDelay, .counterAccumulator, .oneShot,
   .faultDetection, .handshake, .sequencer, .comparisonBranch, .statusMonitoring, .zoneControl,
   .codeConcern, .dataScaling, .permissiveChain, .alarmAnnunciation, .modeSelection, .jogControl,
   .panelWrite]

def name : PatternKind → String
  | .safetyInterlock => "safety_interlock"
  | .startStopCircuit => "start_stop_circuit"
  | .latchUnlatch => "latch_unlatch"
  | .timerDelay => "timer_delay"
  | .counterAccumulator => "counter_accumulator"
  | .oneShot => "one_shot"
  | .faultDetection => "fault_detection"
  | .handshake => "handshake"
  | .sequencer => "sequencer"
  | .comparisonBranch => "comparison_branch"
  | .statusMonitoring => "status_monitoring"
  | .zoneControl => "zone_control"
  | .codeConcern => "code_concern"
  | .dataScaling => "data_scaling"
  | .permissiveChain => "permissive_chain"
  | .alarmAnnunciation => "alarm_annunciation"
  | .modeSelection => "mode_selection"
  | .jogControl => "jog_control"
  | .panelWrite => "hmi_write"

end PatternKind

/-- How sure a rule is, from zero to one. -/
abbrev Confidence := Binary64

/-- So many hundredths. -/
def Confidence.percent (n : Nat) : Confidence :=
  (Binary64.ofRatio false n 100).getD ⟨false, 0, Binary64.leastExponent⟩

/-- What a rule found on a rung. -/
structure Finding where
  kind : PatternKind
  confidence : Confidence
  tags : List String
  description : String
deriving DecidableEq

/-- A pattern of some rungs. -/
structure Pattern where
  kind : PatternKind
  confidence : Confidence
  rungs : List Location
  tags : List String
  description : String
deriving DecidableEq

/-- A pattern of the kind is among them. -/
def Pattern.fired (patterns : List Pattern) (kind : PatternKind) : Bool :=
  patterns.any (·.kind == kind)

/-- Finds its pattern on a rung or does not. A rule sees neither other rungs nor the graph of tags. -/
abbrev Rule := View → Option Finding

end LadderLogic
