import LadderLogic.Pattern.Basic

/-! Rules about timers, counters, one-shots and sequences. -/
namespace LadderLogic.Rule

open Text (listing)

/-- What an accumulating instruction is called. -/
def accumulatorTitle (opcode : String) : String :=
  if opcode == "TON" then "On-delay timer"
  else if opcode == "TOF" then "Off-delay timer"
  else if opcode == "RTO" then "Retentive timer"
  else if opcode == "CTU" then "Up counter"
  else if opcode == "CTD" then "Down counter"
  else "Accumulator"

/-- Instructions that accumulate into their first operand. The description tells the first one's preset if it is a
number. -/
def accumulators (opcodes : List String) (kind : PatternKind) : Rule := fun v =>
  let found := v.having opcodes
  match found with
  | [] => none
  | first :: _ =>
    let tags := ((found.filterMap (·.operands.head?)).filter Operand.isTag).map Text.trim
    let tags := tags.eraseDups
    let preset := match first.operands[1]? with
      | some p => if Operand.isNumeric p then " (preset " ++ Text.trim p ++ ")" else ""
      | none => ""
    some {
      kind
      confidence := .percent 95
      tags
      description := accumulatorTitle first.opcode ++ " " ++ listing tags 3 ++ preset }

def timerDelay : Rule := accumulators Opcode.timers .timerDelay

def counterAccumulator : Rule := accumulators Opcode.counters .counterAccumulator

/-- The edge that the one-shots of a rung act on. -/
def edge (v : View) : String :=
  if v.hasOpcode ["OSF"] then "falling" else "rising"

def oneShot : Rule := fun v =>
  let tags := v.usedBy Opcode.oneShots
  if !v.hasOpcode Opcode.oneShots then none
  else some {
    kind := .oneShot
    confidence := .percent 95
    tags
    description := "One-shot on the " ++ edge v ++ " edge"
      ++ (if tags.isEmpty then "" else " using " ++ listing tags 3) }

/-- A step or phase that is compared, or moved on. -/
def sequencer : Rule := fun v =>
  let compared := (v.readBy Opcode.comparisons).filter Vocabulary.sequence.recognizes
  let advanced := (v.writtenBy ["ADD", "SUB", "MOV", "COP"]).filter Vocabulary.sequence.recognizes
  if compared.isEmpty && advanced.isEmpty then none
  else some {
    kind := .sequencer
    confidence := .percent 85
    tags := (compared ++ advanced).eraseDups
    description := match compared.isEmpty, advanced.isEmpty with
      | false, false =>
        "Sequence step check on " ++ listing compared 2 ++ " advancing " ++ listing advanced 2
      | false, true => "Acts in sequence step " ++ listing compared 2
      | true, _ => "Advances sequence " ++ listing advanced 2 }

end LadderLogic.Rule
