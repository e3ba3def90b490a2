import LadderLogic.Analysis.Basic
import LadderLogic.Context.Json

/-! Analyses as JSON. -/
namespace LadderLogic

open Json (Decoder Record)

namespace KeyTag

def toJson (t : KeyTag) : Json :=
  .object [("name", .string t.name), ("semanticType", .string t.role.name), ("readers", .nat t.readers),
    ("writers", .nat t.writers), ("references", .nat t.references)]

def record : Record KeyTag where
  title := "struct KeyTag"
  blank := ⟨"", .unknown, 0, 0, 0⟩
  fields := [
    .mandatory "name" Decoder.string fun v t => { t with name := v },
    .mandatory "semanticType" Role.decode fun v t => { t with role := v },
    .mandatory "readers" Decoder.count fun v t => { t with readers := v },
    .mandatory "writers" Decoder.count fun v t => { t with writers := v },
    .mandatory "references" Decoder.count fun v t => { t with references := v }]

end KeyTag

namespace Summary

/-- A row of a histogram. -/
def row (member : String) (name : α → String) (e : α × Nat) : Json :=
  .object [(member, .string (name e.1)), ("count", .nat e.2)]

def rowRecord (title member : String) (first : α) (decode : Decoder α) : Record (α × Nat) where
  title
  blank := (first, 0)
  fields := [
    .mandatory member decode fun v e => (v, e.2),
    .mandatory "count" Decoder.count fun v e => (e.1, v)]

def toJson (s : Summary) : Json :=
  .object [("totalRungs", .nat s.totalRungs), ("safetyRungs", .nat s.safetyRungs),
    ("motorControlRungs", .nat s.motorControlRungs), ("timerRungs", .nat s.timerRungs),
    ("counterRungs", .nat s.counterRungs), ("totalTags", .nat s.totalTags),
    ("unreferencedTags", .nat s.unreferencedTags),
    ("patternCounts", .array (s.patternCounts.map (row "type" PatternKind.name))),
    ("categoryCounts", .array (s.categoryCounts.map (row "category" Category.name))),
    ("keyTags", .array (s.keyTags.map KeyTag.toJson))]

def record : Record Summary where
  title := "struct ProgramSummary"
  blank := ⟨0, 0, 0, 0, 0, 0, 0, [], [], []⟩
  fields := [
    .mandatory "totalRungs" Decoder.count fun v s => { s with totalRungs := v },
    .mandatory "safetyRungs" Decoder.count fun v s => { s with safetyRungs := v },
    .mandatory "motorControlRungs" Decoder.count fun v s => { s with motorControlRungs := v },
    .mandatory "timerRungs" Decoder.count fun v s => { s with timerRungs := v },
    .mandatory "counterRungs" Decoder.count fun v s => { s with counterRungs := v },
    .mandatory "totalTags" Decoder.count fun v s => { s with totalTags := v },
    .mandatory "unreferencedTags" Decoder.count fun v s => { s with unreferencedTags := v },
    .mandatory "patternCounts"
      (Decoder.list (rowRecord "struct PatternCount" "type" .safetyInterlock PatternKind.decode).decode)
      fun v s => { s with patternCounts := v },
    .mandatory "categoryCounts"
      (Decoder.list (rowRecord "struct CategoryCount" "category" .safety Category.decode).decode)
      fun v s => { s with categoryCounts := v },
    .mandatory "keyTags" (Decoder.list KeyTag.record.decode) fun v s => { s with keyTags := v }]

end Summary

namespace Analysis

def toJson (a : Analysis) : Json :=
  .object [("tagUsage", a.tagUsage.toJson TagUsage.toJson),
    ("patterns", .array (a.patterns.map Pattern.toJson)),
    ("rungContexts", a.contexts.toJson Context.toJson), ("summary", a.summary.toJson)]

def record : Record Analysis where
  title := "struct ProgramAnalysis"
  blank := ⟨.empty, [], .empty, ⟨0, 0, 0, 0, 0, 0, 0, [], [], []⟩⟩
  fields := [
    .mandatory "tagUsage" (NameMap.decode TagUsage.record.decode) fun v a => { a with tagUsage := v },
    .mandatory "patterns" (Decoder.list Pattern.record.decode) fun v a => { a with patterns := v },
    .mandatory "rungContexts" (NameMap.decode Context.record.decode) fun v a => { a with contexts := v },
    .mandatory "summary" Summary.record.decode fun v a => { a with summary := v }]

end Analysis

end LadderLogic
