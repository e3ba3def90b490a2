import LadderLogic.Pattern.Basic
import LadderLogic.Vocabulary.Ending

/-! Rules about signals: handshakes, status, modes, operator panels, permissives. -/
namespace LadderLogic.Rule

open Text (listing)

/-- Words of command and of feedback on one rung. -/
def handshake : Rule := fun v =>
  if !(Vocabulary.command.recognizes v.text && Vocabulary.feedback.recognizes v.text) then none
  else
    let commands := Vocabulary.command.select v.tags
    let answers := Vocabulary.feedback.select v.tags
    let shown (tags : List String) : String := if tags.isEmpty then "signals" else listing tags 2
    some {
      kind := .handshake
      confidence := .percent 80
      tags := (commands ++ answers).eraseDups
      description := "Handshake between command " ++ shown commands ++ " and feedback " ++ shown answers }

/-- Three or more outputs that report a state. -/
def statusMonitoring : Rule := fun v =>
  let status := v.outputs.filter Ending.reportsStatus
  if status.length < 3 then none
  else some {
    kind := .statusMonitoring
    confidence := .percent 90
    tags := status
    description := "Reports " ++ toString status.length ++ " status outputs: " ++ listing status 4 }

/-- A mode that is set, by a condition or by a move. -/
def modeSelection : Rule := fun v =>
  let modes := (v.writtenBy ["OTE", "OTL", "OTU", "MOV"]).filter Vocabulary.mode.recognizes
  if modes.isEmpty || (v.inputs.isEmpty && !v.hasOpcode ["MOV"]) then none
  else some {
    kind := .modeSelection
    confidence := if v.hasOpcode ["OTL"] && v.hasOpcode ["OTU"] then .percent 85 else .percent 80
    tags := modes
    description := "Selects operating mode " ++ listing modes 3 }

/-- A value or a bit written to an operator panel. -/
def panelWrite : Rule := fun v =>
  let moved := (v.writtenBy ["MOV", "COP"]).filter Vocabulary.panel.recognizes
  let coils := (v.writtenBy ["OTE", "OTL", "OTU"]).filter fun t =>
    Vocabulary.panel.recognizes t && !moved.contains t
  if moved.isEmpty && coils.isEmpty then none
  else some {
    kind := .panelWrite
    confidence := if moved.isEmpty then .percent 80 else .percent 85
    tags := moved ++ coils
    description := "Writes HMI tag " ++ listing (moved ++ coils) 3 }

/-- The contacts of a path that lead to its only coil. -/
structure Chain where
  contacts : List String
  coil : String
deriving DecidableEq

/-- The chain of a path: it has one coil and four or more closed contacts on tags. -/
def Chain.ofPath? (path : List Instruction) : Option Chain :=
  let firsts (opcodes : List String) : List String :=
    ((path.filter (·.hasOpcode opcodes)).filterMap (·.operands.head?)).map Text.trim
  let contacts := (firsts ["XIC"]).filter Operand.isTag
  match firsts ["OTE", "OTL"] with
  | [coil] => if 4 ≤ contacts.length then some ⟨contacts, coil⟩ else none
  | _ => none

/-- The longest chain, the first one of several. -/
def Chain.longest : List Chain → Option Chain
  | [] => none
  | c :: rest => match longest rest with
    | some d => if c.contacts.length < d.contacts.length then some d else some c
    | none => some c

/-- Contacts in series that must all be closed. -/
def permissiveChain : Rule := fun v => do
  let chain ← Chain.longest (v.paths.filterMap Chain.ofPath?)
  return {
    kind := .permissiveChain
    confidence := if 6 ≤ chain.contacts.length then .percent 90 else .percent 80
    tags := chain.contacts ++ [chain.coil]
    description := toString chain.contacts.length ++ " permissives must all be true to energize "
      ++ chain.coil ++ ": " ++ listing chain.contacts 6 }

end LadderLogic.Rule
