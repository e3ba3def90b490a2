import LadderLogic.Project.Basic
import LadderLogic.Json.Decode

/-! Projects as JSON. -/
namespace LadderLogic

namespace Json

/-- A member that is left out if there is no value. -/
def optional (name : String) : Option Json → List (String × Json)
  | some v => [(name, v)]
  | none => []

/-- A list member that is left out if the list is empty. -/
def unlessEmpty (name : String) (encode : α → Json) (xs : List α) : List (String × Json) :=
  if xs.isEmpty then [] else [(name, .array (xs.map encode))]

def word32 (n : UInt32) : Json := nat n.toNat

end Json

open Json (Field Decoder Record)

namespace Instruction

def toJson (i : Instruction) : Json :=
  .object ([("type", .string i.kind), ("operands", .strings i.operands)]
    ++ Json.optional "branchLeg" (i.branchLeg.map .word32)
    ++ Json.optional "branchLevel" (i.branchLevel.map .word32)
    ++ Json.optional "branchStart" (i.branchStart.map .bool))

def record : Record Instruction where
  title := "struct Instruction"
  blank := { kind := "" }
  fields := [
    .mandatory "type" Decoder.string fun v i => { i with kind := v },
    .optional "operands" (Decoder.list Decoder.string) fun v i => { i with operands := v },
    .optional "branchLeg" (Decoder.option Decoder.word32) fun v i => { i with branchLeg := v },
    .optional "branchLevel" (Decoder.option Decoder.word32) fun v i => { i with branchLevel := v },
    .optional "branchStart" (Decoder.option Decoder.bool) fun v i => { i with branchStart := v }]

end Instruction

namespace Rung

def toJson (r : Rung) : Json :=
  .object ([("number", .word32 r.number)] ++ Json.optional "comment" (r.comment.map .string)
    ++ [("rawText", .string r.text), ("instructions", .array (r.instructions.map Instruction.toJson))])

def record : Record Rung where
  title := "struct Rung"
  blank := { number := 0 }
  fields := [
    .mandatory "number" Decoder.word32 fun v r => { r with number := v },
    .optional "comment" (Decoder.option Decoder.string) fun v r => { r with comment := v },
    .optional "rawText" Decoder.string fun v r => { r with text := v },
    .optional "instructions" (Decoder.list Instruction.record.decode) fun v r => { r with instructions := v }]

end Rung

namespace Routine

def toJson (r : Routine) : Json :=
  .object [("name", .string r.name), ("type", .string r.kind), ("rungs", .array (r.rungs.map Rung.toJson))]

def record : Record Routine where
  title := "struct Routine"
  blank := { name := "" }
  fields := [
    .mandatory "name" Decoder.string fun v r => { r with name := v },
    .optional "type" Decoder.string fun v r => { r with kind := v },
    .optional "rungs" (Decoder.list Rung.record.decode) fun v r => { r with rungs := v }]

end Routine

namespace Tag

def toJson (t : Tag) : Json :=
  .object ([("name", .string t.name), ("dataType", .string t.dataType), ("scope", .string t.scope)]
    ++ Json.optional "description" (t.description.map .string))

def record : Record Tag where
  title := "struct Tag"
  blank := { name := "" }
  fields := [
    .mandatory "name" Decoder.string fun v t => { t with name := v },
    .optional "dataType" Decoder.string fun v t => { t with dataType := v },
    .optional "scope" Decoder.string fun v t => { t with scope := v },
    .optional "description" (Decoder.option Decoder.string) fun v t => { t with description := v }]

end Tag

namespace Program

def toJson (p : Program) : Json :=
  .object [("name", .string p.name), ("routines", .array (p.routines.map Routine.toJson)),
    ("tags", .array (p.tags.map Tag.toJson))]

def record : Record Program where
  title := "struct Program"
  blank := { name := "" }
  fields := [
    .mandatory "name" Decoder.string fun v p => { p with name := v },
    .optional "routines" (Decoder.list Routine.record.decode) fun v p => { p with routines := v },
    .optional "tags" (Decoder.list Tag.record.decode) fun v p => { p with tags := v }]

end Program

namespace Project

def toJson (p : Project) : Json :=
  .object [("programs", .array (p.programs.map Program.toJson)), ("tags", .array (p.tags.map Tag.toJson))]

def record : Record Project where
  title := "struct Project"
  blank := {}
  fields := [
    .optional "programs" (Decoder.list Program.record.decode) fun v p => { p with programs := v },
    .optional "tags" (Decoder.list Tag.record.decode) fun v p => { p with tags := v }]

/-- Reads a project from its JSON text. -/
def ofText (text : String) : Except Json.ReadError Project :=
  Json.readText record.decode text

end Project

end LadderLogic
