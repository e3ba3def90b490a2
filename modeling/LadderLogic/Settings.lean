import LadderLogic.Project.Json

/-! Caps and thresholds for the parts of an analysis that are sized by policy. -/
namespace LadderLogic

structure Settings where
  /-- How many key tags a summary has at most. -/
  maxKeyTags : UInt64 := 20
  /-- How many references make any tag a key tag. -/
  keyTagMinReferences : UInt64 := 3
  /-- How many key points a rung has at most. -/
  maxKeyPoints : UInt64 := 6
  /-- How many outputs make a rung that reports status a status rung, whatever else it is. -/
  statusOverrideMinOutputs : UInt64 := 5
deriving DecidableEq

namespace Settings

open Json (Decoder)

def word64 (n : UInt64) : Json := .nat n.toNat

def toJson (s : Settings) : Json :=
  .object [("maxKeyTags", word64 s.maxKeyTags), ("keyTagMinReferences", word64 s.keyTagMinReferences),
    ("maxKeyPoints", word64 s.maxKeyPoints),
    ("statusOverrideMinOutputs", word64 s.statusOverrideMinOutputs)]

def record : Json.Record Settings where
  title := "struct AnalyzerConfig"
  blank := {}
  fields := [
    .optional "maxKeyTags" Decoder.word64 fun v s => { s with maxKeyTags := v },
    .optional "keyTagMinReferences" Decoder.word64 fun v s => { s with keyTagMinReferences := v },
    .optional "maxKeyPoints" Decoder.word64 fun v s => { s with maxKeyPoints := v },
    .optional "statusOverrideMinOutputs" Decoder.word64 fun v s => { s with statusOverrideMinOutputs := v }]
  strict := true

/-- Reads settings from their JSON text. A blank text stands for the defaults. -/
def ofText (text : String) : Except Json.ReadError Settings :=
  if Text.isBlankText text then .ok {} else Json.readText record.decode (Text.trim text)

end Settings

end LadderLogic
