import LadderLogic.Context.Purpose
import LadderLogic.Context.CrossReference
import LadderLogic.Pattern.Timing

/-! Short remarks about a rung, each independent of the others. -/
namespace LadderLogic.KeyPoint

open Text (listing)

/-- Rung numbers, at most five of them. -/
def numbers (rungs : List UInt32) : String :=
  listing (rungs.map fun n => toString n.toNat) 5

def when (b : Bool) (point : String) : List String :=
  if b then [point] else []

/-- A remark about the first pattern of a kind. -/
def about (patterns : List Pattern) (kind : PatternKind) (remark : Pattern → String) : List String :=
  ((patterns.find? (·.kind == kind)).map remark).toList

/-- Who else reads the primary output. -/
def readers (v : View) (graph : TagGraph) (p : Purpose) : List String :=
  match p.primaryOutput with
  | none => []
  | some output =>
    let others := v.othersUsing graph output .read
    when (!others.isEmpty) (output ++ " is used by rung(s) " ++ numbers others)

/-- Who else writes the first input that others write. -/
def writers (v : View) (graph : TagGraph) : List String :=
  (v.inputs.findSome? fun input =>
    let others := v.othersUsing graph input .write
    if others.isEmpty then none else some (input ++ " is set by rung(s) " ++ numbers others)).toList

/-- All remarks, in order. -/
def all (v : View) (patterns : List Pattern) (graph : TagGraph) (p : Purpose) (optionBits : Bool) :
    List String :=
  let conditions := p.conditions.length
  let branches := v.circuit.branches.length
  when (v.circuit.isLinear && 2 ≤ conditions) ("All " ++ toString conditions ++ " conditions must be true")
    ++ when (2 ≤ branches)
      (toString branches ++ " parallel branches; any one path can energize the output")
    ++ when optionBits "Uses option bits; behaviour depends on machine configuration"
    ++ when (Pattern.fired patterns .latchUnlatch)
      "Latched output holds its state until explicitly unlatched"
    ++ about patterns .timerDelay (·.description)
    ++ about patterns .counterAccumulator (·.description)
    ++ when (Pattern.fired patterns .oneShot)
      ("Acts on a " ++ Rule.edge v ++ " edge for a single scan")
    ++ about patterns .faultDetection (fun f => "Fault logic: " ++ f.description)
    ++ when (!p.safetyInputs.isEmpty)
      ("Safety inputs " ++ listing p.safetyInputs 3 ++ " must be healthy")
    ++ readers v graph p
    ++ writers v graph
    ++ about patterns .codeConcern (fun c => "Review: " ++ c.description)

end LadderLogic.KeyPoint
