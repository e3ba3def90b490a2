import LadderLogic.Pattern.Basic

/-! Rules about machines in motion: starting and stopping, latching, jogging, zones. -/
namespace LadderLogic.Rule

open Text (listing)

/-- Motor tags together with words of starting and stopping, or with a latch. An output that is also an input
holds itself in. -/
def startStopCircuit : Rule := fun v =>
  let motors := Vocabulary.motor.select v.tags
  let commands := Vocabulary.startStop.select v.tags
  let latched := v.hasOpcode ["OTL"]
  if motors.isEmpty || (commands.isEmpty && !latched) then none
  else
    let holding := match v.outputs.find? v.inputs.contains with
      | some tag => " with seal-in on " ++ tag
      | none => if latched then " held by a latch" else ""
    some {
      kind := .startStopCircuit
      confidence := .percent 85
      tags := (motors ++ commands).eraseDups
      description := "Start/stop circuit for " ++ listing motors 3 ++ holding }

/-- A latch or unlatch instruction. -/
def latchUnlatch : Rule := fun v =>
  let latched := v.writtenBy ["OTL"]
  let unlatched := v.writtenBy ["OTU"]
  if !v.hasOpcode ["OTL", "OTU"] then none
  else some {
    kind := .latchUnlatch
    confidence := .percent 95
    tags := (latched ++ unlatched).eraseDups
    description := match latched.isEmpty, unlatched.isEmpty with
      | false, false => "Latches " ++ listing latched 3 ++ " and unlatches " ++ listing unlatched 3
      | false, true => "Latches " ++ listing latched 3 ++ " (held until unlatched elsewhere)"
      | true, false => "Unlatches " ++ listing unlatched 3
      | true, true => "Latch/unlatch instruction without a tag operand" }

/-- A jog output with an input. Jogging is momentary, so a latch speaks against it. -/
def jogControl : Rule := fun v =>
  let jogs := (v.writtenBy ["OTE", "OTL"]).filter Vocabulary.jog.recognizes
  if jogs.isEmpty || v.inputs.isEmpty then none
  else some {
    kind := .jogControl
    confidence := if v.hasOpcode ["OTL"] then .percent 80 else .percent 90
    tags := jogs
    description := "Jogs " ++ listing jogs 3 ++ " while the jog input is held" }

/-- Two or more tags of zones. -/
def zoneControl : Rule := fun v =>
  let zones := Vocabulary.zone.select v.tags
  if zones.length < 2 then none
  else some {
    kind := .zoneControl
    confidence := .percent 85
    tags := zones
    description := "Coordinates zones " ++ listing zones 4 }

end LadderLogic.Rule
