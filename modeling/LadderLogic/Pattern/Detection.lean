import LadderLogic.Pattern.Safety
import LadderLogic.Pattern.Motion
import LadderLogic.Pattern.Timing
import LadderLogic.Pattern.Signal
import LadderLogic.Pattern.Data

/-! All rules, and the patterns that they find on a rung. -/
namespace LadderLogic

/-- The rule of each pattern. -/
def PatternKind.rule : PatternKind → Rule
  | .safetyInterlock => Rule.safetyInterlock
  | .startStopCircuit => Rule.startStopCircuit
  | .latchUnlatch => Rule.latchUnlatch
  | .timerDelay => Rule.timerDelay
  | .counterAccumulator => Rule.counterAccumulator
  | .oneShot => Rule.oneShot
  | .faultDetection => Rule.faultDetection
  | .handshake => Rule.handshake
  | .sequencer => Rule.sequencer
  | .comparisonBranch => Rule.comparisonBranch
  | .statusMonitoring => Rule.statusMonitoring
  | .zoneControl => Rule.zoneControl
  | .codeConcern => Rule.codeConcern
  | .dataScaling => Rule.dataScaling
  | .permissiveChain => Rule.permissiveChain
  | .alarmAnnunciation => Rule.alarmAnnunciation
  | .modeSelection => Rule.modeSelection
  | .jogControl => Rule.jogControl
  | .panelWrite => Rule.panelWrite

/-- The pattern that the rule of one kind finds on a rung. -/
def Pattern.find? (v : View) (kind : PatternKind) : Option Pattern :=
  (kind.rule v).map fun f => ⟨f.kind, f.confidence, [v.location], f.tags, f.description⟩

/-- All patterns of a rung. Any number of rules may find theirs. -/
def Pattern.detect (v : View) : List Pattern :=
  PatternKind.all.filterMap (find? v)

end LadderLogic
