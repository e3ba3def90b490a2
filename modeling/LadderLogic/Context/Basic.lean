import LadderLogic.Context.Purpose
import LadderLogic.Context.KeyPoint
import LadderLogic.Context.Subsystem
import LadderLogic.Context.BranchGroup
import LadderLogic.Pattern.Detection
import LadderLogic.Settings

/-! All that is concluded about one rung. -/
namespace LadderLogic

structure Context where
  category : Category
  purpose : String
  purposeDetail : Purpose
  patterns : List Pattern
  relatedRungs : List UInt32
  safetyRelevant : Bool
  inputs : List String
  outputs : List String
  concerns : List String := []
  subsystems : List String := []
  keyPoints : List String := []
  branchCount : Nat
  hasOptionBits : Bool
  branchGroups : List BranchGroup := []
deriving DecidableEq

/-- A rung matters to safety if it interlocks, is of that category or uses a tag of that role. -/
def Context.isSafetyRelevant (v : View) (patterns : List Pattern) (category : Category) (graph : TagGraph) :
    Bool :=
  Pattern.fired patterns .safetyInterlock || category == .safety
    || v.tags.any fun t => graph.roleOf t == .safety

/-- The conclusions about a rung. -/
def Context.ofView (v : View) (graph : TagGraph) (settings : Settings) : Context :=
  let patterns := Pattern.detect v
  let category := Category.ofView v patterns graph settings.statusOverrideMinOutputs.toNat
  let subsystems := Subsystem.ofTags v.tags
  let optionBits := Subsystem.hasOptionBits v.tags
  let purpose := Purpose.ofView v patterns category subsystems
  { category
    purpose := purpose.sentence
    purposeDetail := purpose
    patterns
    relatedRungs := v.relatedRungs graph
    safetyRelevant := isSafetyRelevant v patterns category graph
    inputs := v.inputs
    outputs := v.outputs
    concerns := (patterns.filter (·.kind == .codeConcern)).map (·.description)
    subsystems
    keyPoints := (KeyPoint.all v patterns graph purpose optionBits).take settings.maxKeyPoints.toNat
    branchCount := v.circuit.branches.length
    hasOptionBits := optionBits
    branchGroups := BranchGroup.ofView v graph }

end LadderLogic
