import LadderLogic.Analysis.Summary

/-! The analysis of a project: the graph of its tags first, then each rung against that graph. -/
namespace LadderLogic

structure Analysis where
  tagUsage : NameMap TagUsage
  patterns : List Pattern
  /-- By the key of the location. Of several rungs with one key the last one counts. -/
  contexts : NameMap Context
  summary : Summary
deriving DecidableEq

namespace Analysis

/-- The conclusions about every rung, in order. -/
def contextsOf (p : Project) (graph : TagGraph) (settings : Settings) : List (Location × Context) :=
  p.rungs.map fun (location, rung) =>
    (location, Context.ofView (View.ofRung location.program location.routine rung) graph settings)

def ofProject (p : Project) (settings : Settings) : Analysis :=
  let graph := TagGraph.ofProject p
  let contexts := contextsOf p graph settings
  { tagUsage := graph.tags
    patterns := contexts.flatMap fun (_, c) => c.patterns
    contexts := .ofList (contexts.map fun (location, c) => (location.key, c))
    summary := Summary.ofContexts (contexts.map (·.2)) graph settings }

end Analysis

end LadderLogic
