import LadderLogic.Tag.Graph
import LadderLogic.Rung.View

/-! Rungs of the same routine that share tags. -/
namespace LadderLogic.View

/-- The other rungs of the routine that use a tag so. -/
def othersUsing (v : View) (graph : TagGraph) (tag : String) (usage : Usage) : List UInt32 :=
  (graph.rungsUsing tag v.location.program v.location.routine usage).filter (· != v.location.number)

/-- The other rungs of the routine that use a tag of this rung, in ascending order. -/
def relatedRungs (v : View) (graph : TagGraph) : List UInt32 :=
  ascending (v.tags.flatMap fun tag =>
    v.othersUsing graph tag .read ++ v.othersUsing graph tag .write)

end LadderLogic.View
