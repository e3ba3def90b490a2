import LadderLogic.Context.Basic
import LadderLogic.Tag.Json

/-! Patterns and conclusions about rungs as JSON. -/
namespace LadderLogic

open Json (Decoder Record)

def PatternKind.decode : Decoder PatternKind := Decoder.named PatternKind.all PatternKind.name

def Category.decode : Decoder Category := Decoder.named Category.all Category.name

private def stringList : Decoder (List String) := Decoder.list Decoder.string

namespace Pattern

def toJson (p : Pattern) : Json :=
  .object [("type", .string p.kind.name), ("confidence", .number (.real p.confidence)),
    ("rungRefs", .array (p.rungs.map Location.toJson)), ("tags", .strings p.tags),
    ("description", .string p.description)]

def record : Record Pattern where
  title := "struct DetectedPattern"
  blank := ⟨.safetyInterlock, .percent 0, [], [], ""⟩
  fields := [
    .mandatory "type" PatternKind.decode fun v p => { p with kind := v },
    .mandatory "confidence" Decoder.real fun v p => { p with confidence := v },
    .mandatory "rungRefs" (Decoder.list Location.record.decode) fun v p => { p with rungs := v },
    .mandatory "tags" stringList fun v p => { p with tags := v },
    .mandatory "description" Decoder.string fun v p => { p with description := v }]

end Pattern

namespace Purpose

def toJson (p : Purpose) : Json :=
  .object ([("template", .string p.template.name)]
    ++ Json.optional "primaryOutput" (p.primaryOutput.map .string)
    ++ Json.optional "intent" (p.intent.map fun i => .string i.name)
    ++ [("conditions", .strings p.conditions), ("extraOutputs", .nat p.extraOutputs)]
    ++ Json.unlessEmpty "subsystems" .string p.subsystems
    ++ Json.unlessEmpty "safetyInputs" .string p.safetyInputs)

def record : Record Purpose where
  title := "struct Purpose"
  blank := { template := .empty }
  fields := [
    .mandatory "template" (Decoder.named Template.all Template.name) fun v p => { p with template := v },
    .optional "primaryOutput" (Decoder.option Decoder.string) fun v p => { p with primaryOutput := v },
    .optional "intent" (Decoder.option (Decoder.named Intent.all Intent.name)) fun v p =>
      { p with intent := v },
    .optional "conditions" stringList fun v p => { p with conditions := v },
    .optional "extraOutputs" Decoder.count fun v p => { p with extraOutputs := v },
    .optional "subsystems" stringList fun v p => { p with subsystems := v },
    .optional "safetyInputs" stringList fun v p => { p with safetyInputs := v }]

end Purpose

namespace BranchGroup

def toJson (g : BranchGroup) : Json :=
  .object [("name", .string g.topic.name), ("branches", .array (g.branches.map .nat)),
    ("tags", .strings g.tags)]

def record : Record BranchGroup where
  title := "struct BranchGroup"
  blank := ⟨.general, [], []⟩
  fields := [
    .mandatory "name" (Decoder.named Topic.all Topic.name) fun v g => { g with topic := v },
    .mandatory "branches" (Decoder.list Decoder.count) fun v g => { g with branches := v },
    .mandatory "tags" stringList fun v g => { g with tags := v }]

end BranchGroup

namespace Context

def toJson (c : Context) : Json :=
  .object ([("category", .string c.category.name), ("purpose", .string c.purpose),
      ("purposeDetail", c.purposeDetail.toJson), ("patterns", .array (c.patterns.map Pattern.toJson)),
      ("relatedRungs", .array (c.relatedRungs.map .word32)), ("safetyRelevant", .bool c.safetyRelevant),
      ("inputTags", .strings c.inputs), ("outputTags", .strings c.outputs)]
    ++ Json.unlessEmpty "concerns" .string c.concerns
    ++ Json.unlessEmpty "subsystems" .string c.subsystems
    ++ [("keyPoints", .strings c.keyPoints), ("branchCount", .nat c.branchCount),
      ("hasOptionBits", .bool c.hasOptionBits)]
    ++ Json.unlessEmpty "branchGroups" BranchGroup.toJson c.branchGroups)

def record : Record Context where
  title := "struct RungContext"
  blank := {
    category := .generalLogic, purpose := "", purposeDetail := { template := .empty }, patterns := []
    relatedRungs := [], safetyRelevant := false, inputs := [], outputs := [], branchCount := 0
    hasOptionBits := false }
  fields := [
    .mandatory "category" Category.decode fun v c => { c with category := v },
    .mandatory "purpose" Decoder.string fun v c => { c with purpose := v },
    .mandatory "purposeDetail" Purpose.record.decode fun v c => { c with purposeDetail := v },
    .mandatory "patterns" (Decoder.list Pattern.record.decode) fun v c => { c with patterns := v },
    .mandatory "relatedRungs" (Decoder.list Decoder.word32) fun v c => { c with relatedRungs := v },
    .mandatory "safetyRelevant" Decoder.bool fun v c => { c with safetyRelevant := v },
    .mandatory "inputTags" stringList fun v c => { c with inputs := v },
    .mandatory "outputTags" stringList fun v c => { c with outputs := v },
    .optional "concerns" stringList fun v c => { c with concerns := v },
    .optional "subsystems" stringList fun v c => { c with subsystems := v },
    .optional "keyPoints" stringList fun v c => { c with keyPoints := v },
    .mandatory "branchCount" Decoder.count fun v c => { c with branchCount := v },
    .mandatory "hasOptionBits" Decoder.bool fun v c => { c with hasOptionBits := v },
    .optional "branchGroups" (Decoder.list BranchGroup.record.decode) fun v c =>
      { c with branchGroups := v }]

end Context

end LadderLogic
