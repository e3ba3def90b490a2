import LadderLogic.Pattern.Basic

/-! Rules about safety and faults. -/
namespace LadderLogic.Rule

open Text (listing)

/-- What kind of safety device the text of a rung names, and how sure that is. -/
def safetyVariant (text : String) : String × Confidence :=
  if Vocabulary.emergencyStop.recognizes text then ("Emergency stop", .percent 95)
  else if Vocabulary.gate.recognizes text then ("Gate", .percent 95)
  else if Vocabulary.guard.recognizes text then ("Guard", .percent 95)
  else ("Safety", .percent 90)

/-- Words of safety on a rung that gates an output. -/
def safetyInterlock : Rule := fun v =>
  let safetyTags := Vocabulary.safety.select v.tags
  if safetyTags.isEmpty && !Vocabulary.safety.recognizes v.text then none
  else if !v.gatesOutput then none
  else
    let (variant, confidence) := safetyVariant v.text
    let conditions := if safetyTags.isEmpty then "safety conditions" else listing safetyTags 4
    some {
      kind := .safetyInterlock
      confidence
      tags := safetyTags
      description := variant ++ " interlock: " ++ conditions ++ " must hold to drive "
        ++ listing (v.writtenBy Opcode.coils) 4 }

/-- Fault words among the tags. A fault that is written is raised, else it is reacted to. -/
def faultDetection : Rule := fun v =>
  let faultTags := Vocabulary.fault.select v.tags
  let raised := faultTags.filter v.outputs.contains
  if faultTags.isEmpty then none
  else some {
    kind := .faultDetection
    confidence := .percent 85
    tags := faultTags
    description := if raised.isEmpty then "Reacts to fault condition " ++ listing faultTags 3
      else "Raises fault " ++ listing raised 3 }

/-- An alarm coil driven by conditions. -/
def alarmAnnunciation : Rule := fun v =>
  let alarms := (v.writtenBy ["OTE", "OTL"]).filter Vocabulary.alarm.recognizes
  let latched := (v.writtenBy ["OTL"]).any alarms.contains
  if !v.gatesOutput || alarms.isEmpty then none
  else some {
    kind := .alarmAnnunciation
    confidence := if latched then .percent 90 else .percent 85
    tags := alarms
    description := (if latched then "Latches" else "Annunciates") ++ " alarm " ++ listing alarms 3 }

end LadderLogic.Rule
