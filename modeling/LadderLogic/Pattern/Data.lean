import LadderLogic.Pattern.Basic
import LadderLogic.Vocabulary.Ending

/-! Rules about values: comparisons, arithmetic on bits, scaling. -/
namespace LadderLogic.Rule

open Text (listing)

/-- Two or more comparisons, or a test of a range. -/
def comparisonBranch : Rule := fun v =>
  let count := v.countOpcodes Opcode.comparisons
  let limit := v.hasOpcode ["LIM"]
  let tags := v.readBy Opcode.comparisons
  if count < 2 && !limit then none
  else some {
    kind := .comparisonBranch
    confidence := .percent 75
    tags
    description := if limit then "Range check on " ++ listing tags 3
      else toString count ++ " comparisons on " ++ listing tags 3 }

/-- The operands that are named as bits. -/
def bits (operands : List String) : List String :=
  (operands.map Text.trim).filter fun op => Operand.isTag op && Ending.namesBit op

/-- A number is computed from two bits, or a bit is compared as a number. -/
def misuse? (i : Instruction) : Option (String × List String) :=
  if i.hasOpcode ["MUL", "DIV"] then
    match bits (i.operands.take 2) with
    | [a, b] =>
      some (i.opcode ++ " applied to bit-named tags " ++ a ++ " and " ++ b
        ++ "; arithmetic on booleans is likely a mistake", [a, b])
    | _ => none
  else if i.hasOpcode ["EQU"] then
    match bits i.operands with
    | bit :: _ =>
      some ("EQU compares bit-named tag " ++ bit ++ "; XIC/XIO expresses a bit test directly", [bit])
    | [] => none
  else none

/-- The first misuse of bits on a rung. -/
def concern? (v : View) : Option (String × List String) :=
  v.instructions.findSome? misuse?

/-- A likely mistake. It never decides about category or safety. -/
def codeConcern : Rule := fun v =>
  (concern? v).map fun (description, tags) => { kind := .codeConcern, confidence := .percent 80, tags, description }

/-- Full scales of converters, and factors between units. -/
def scalingConstants : List String :=
  ["32767", "32768", "16383", "16384", "4095", "4096", "27648", "65535", "1000", "100", "60", "3600",
   "0.1", "0.01", "0.001"]

def isScalingConstant (operand : String) : Bool :=
  scalingConstants.contains (Text.trim operand)

/-- Multiplication or division of analog values or by a scaling constant, where no bit is misused. -/
def dataScaling : Rule := fun v =>
  let block := v.hasOpcode ["SCP", "SCL"]
  if !v.hasOpcode ["MUL", "DIV"] && !block then none
  else if (concern? v).isSome then none
  else
    let analog := Vocabulary.analog.select v.tags
    let constants := ((v.having ["MUL", "DIV"]).flatMap (·.operands)).any isScalingConstant
    let description := if analog.isEmpty then "Scales a value by a full-scale constant"
      else "Scales analog value " ++ listing analog 3
    match block || !analog.isEmpty, constants with
    | true, true => some { kind := .dataScaling, confidence := .percent 90, tags := analog, description }
    | true, false => some { kind := .dataScaling, confidence := .percent 80, tags := analog, description }
    | false, true => some { kind := .dataScaling, confidence := .percent 75, tags := analog, description }
    | false, false => none

end LadderLogic.Rule
