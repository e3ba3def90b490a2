import LadderLogic.Tag.Graph
import LadderLogic.Project.Json

/-! Locations, references and uses of tags as JSON. -/
namespace LadderLogic

open Json (Decoder Record)

namespace Location

def members (l : Location) : List (String × Json) :=
  [("program", .string l.program), ("routine", .string l.routine), ("rungNumber", .word32 l.number)]

def toJson (l : Location) : Json := .object l.members

def record : Record Location where
  title := "struct RungLocation"
  blank := ⟨"", "", 0⟩
  fields := [
    .mandatory "program" Decoder.string fun v l => { l with program := v },
    .mandatory "routine" Decoder.string fun v l => { l with routine := v },
    .mandatory "rungNumber" Decoder.word32 fun v l => { l with number := v }]

end Location

namespace Reference

def toJson (r : Reference) : Json :=
  .object (r.location.members
    ++ [("instructionKind", .string r.opcode), ("usage", .string r.usage.name)])

def record : Record Reference where
  title := "struct RungReference"
  blank := ⟨⟨"", "", 0⟩, "", .read⟩
  fields := [
    .mandatory "program" Decoder.string fun v r => { r with location.program := v },
    .mandatory "routine" Decoder.string fun v r => { r with location.routine := v },
    .mandatory "rungNumber" Decoder.word32 fun v r => { r with location.number := v },
    .mandatory "instructionKind" Decoder.string fun v r => { r with opcode := v },
    .mandatory "usage" (Decoder.named Usage.all Usage.name) fun v r => { r with usage := v }]

end Reference

def Role.decode : Decoder Role := Decoder.named Role.all Role.name

namespace TagUsage

def toJson (t : TagUsage) : Json :=
  .object ([("name", .string t.name), ("readers", .array (t.readers.map Reference.toJson)),
      ("writers", .array (t.writers.map Reference.toJson)), ("semanticType", .string t.role.name)]
    ++ Json.optional "dataType" (t.dataType.map .string)
    ++ Json.optional "description" (t.description.map .string))

def record : Record TagUsage where
  title := "struct TagUsageInfo"
  blank := { name := "", readers := [], writers := [], role := .unknown }
  fields := [
    .mandatory "name" Decoder.string fun v t => { t with name := v },
    .mandatory "readers" (Decoder.list Reference.record.decode) fun v t => { t with readers := v },
    .mandatory "writers" (Decoder.list Reference.record.decode) fun v t => { t with writers := v },
    .mandatory "semanticType" Role.decode fun v t => { t with role := v },
    .optional "dataType" (Decoder.option Decoder.string) fun v t => { t with dataType := v },
    .optional "description" (Decoder.option Decoder.string) fun v t => { t with description := v }]

end TagUsage

namespace NameMap

def toJson (encode : α → Json) (m : NameMap α) : Json :=
  .object (m.entries.map fun e => (e.1, encode e.2))

/-- Of several members with one name the last one counts. -/
def decode (inner : Decoder α) : Decoder (NameMap α) :=
  fun d => (Decoder.table inner d).map ofList

end NameMap

end LadderLogic
