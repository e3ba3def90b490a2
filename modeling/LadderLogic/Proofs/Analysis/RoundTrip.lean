import LadderLogic.Analysis.Json
import LadderLogic.Proofs.Analysis.Summary
import LadderLogic.Proofs.NameMap
import LadderLogic.Proofs.Pattern.Confidence

/-! An analysis is read back from its text, if its counts have 64 bits and its confidences are those that rules
report. -/
namespace LadderLogic

open Json (Decoder Record)

namespace NameMap

theorem reads_toJson {decoder : Decoder α} {encode : α → Json} {m : NameMap α}
    (h : ∀ e ∈ m.entries, decoder.Reads (encode e.2) e.2) : Decoder.Reads (decode decoder) (m.toJson encode) m := by
  have htable := Decoder.Reads.table h
  refine ⟨htable.readsBack, ?_⟩
  rw [decode, toJson, htable.decode_eq, Except.map, ofList_entries]

end NameMap

theorem PatternKind.reads_name (kind : PatternKind) : Decoder.Reads decode (.string kind.name) kind :=
  .named (by decide) kind.mem_all

theorem Category.reads_name (category : Category) : Decoder.Reads decode (.string category.name) category :=
  .named (by decide) category.mem_all

theorem Role.reads_name (role : Role) : Decoder.Reads decode (.string role.name) role :=
  .named (by decide) (by cases role <;> decide)

theorem Usage.reads_name (usage : Usage) : (Decoder.named all name).Reads (.string usage.name) usage :=
  .named (by decide) (by cases usage <;> decide)

theorem Template.reads_name (template : Template) :
    (Decoder.named all name).Reads (.string template.name) template :=
  .named (by decide) (by cases template <;> decide)

theorem Intent.reads_name (intent : Intent) : (Decoder.named all name).Reads (.string intent.name) intent :=
  .named (by decide) (by cases intent <;> decide)

theorem Topic.reads_name (topic : Topic) : (Decoder.named all name).Reads (.string topic.name) topic :=
  .named (by decide) (by cases topic <;> decide)

theorem Location.reads_toJson (l : Location) : Decoder.Reads record.decode l.toJson l := by
  apply Record.decode_reads (by decide)
  apply Record.Writes.value rfl (.string l.program)
  apply Record.Writes.value rfl (.string l.routine)
  apply Record.Writes.value rfl (.word32 l.number)
  exact .done l

theorem Reference.reads_toJson (r : Reference) : Decoder.Reads record.decode r.toJson r := by
  apply Record.decode_reads (by decide)
  apply Record.Writes.value rfl (.string r.location.program)
  apply Record.Writes.value rfl (.string r.location.routine)
  apply Record.Writes.value rfl (.word32 r.location.number)
  apply Record.Writes.value rfl (.string r.opcode)
  apply Record.Writes.value rfl r.usage.reads_name
  exact .done r

theorem TagUsage.reads_toJson (t : TagUsage) : Decoder.Reads record.decode t.toJson t := by
  have hreferences (rs : List Reference) :
      (Decoder.list Reference.record.decode).Reads (.array (rs.map Reference.toJson)) rs :=
    .list fun r _ => r.reads_toJson
  apply Record.decode_reads (by decide)
  rw [← List.append_nil (Json.optional "description" _)]
  simp only [List.cons_append, List.nil_append]
  apply Record.Writes.value rfl (.string t.name)
  apply Record.Writes.value rfl (hreferences t.readers)
  apply Record.Writes.value rfl (hreferences t.writers)
  apply Record.Writes.value rfl t.role.reads_name
  apply Record.Writes.option t.dataType .string nofun rfl
  apply Record.Writes.option t.description .string nofun rfl
  exact .done t

theorem Pattern.reads_toJson {p : Pattern} (h : p.confidence.IsLevel) :
    Decoder.Reads record.decode p.toJson p := by
  have hrungs : (Decoder.list Location.record.decode).Reads (.array (p.rungs.map Location.toJson)) p.rungs :=
    .list fun l _ => l.reads_toJson
  apply Record.decode_reads (by decide)
  apply Record.Writes.value rfl p.kind.reads_name
  apply Record.Writes.value rfl (.confidence h)
  apply Record.Writes.value rfl hrungs
  apply Record.Writes.value rfl (.strings p.tags)
  apply Record.Writes.value rfl (.string p.description)
  exact .done p

theorem Purpose.reads_toJson {p : Purpose} (h : p.extraOutputs < UInt64.size) :
    Decoder.Reads record.decode p.toJson p := by
  apply Record.decode_reads (by decide)
  rw [← List.append_nil (Json.unlessEmpty "safetyInputs" _ _)]
  simp only [List.append_assoc, List.cons_append, List.nil_append]
  apply Record.Writes.value rfl p.template.reads_name
  apply Record.Writes.option p.primaryOutput .string nofun rfl
  apply Record.Writes.option p.intent Intent.reads_name nofun rfl
  apply Record.Writes.value rfl (.strings p.conditions)
  apply Record.Writes.value rfl (.count h)
  apply Record.Writes.unlessEmpty p.subsystems (fun s _ => .string s) rfl
  apply Record.Writes.unlessEmpty p.safetyInputs (fun s _ => .string s) rfl
  exact .done p

theorem BranchGroup.reads_toJson {g : BranchGroup} (h : ∀ i ∈ g.branches, i < UInt64.size) :
    Decoder.Reads record.decode g.toJson g := by
  have hbranches : (Decoder.list Decoder.count).Reads (.array (g.branches.map .nat)) g.branches :=
    .list fun i hi => .count (h i hi)
  apply Record.decode_reads (by decide)
  apply Record.Writes.value rfl g.topic.reads_name
  apply Record.Writes.value rfl hbranches
  apply Record.Writes.value rfl (.strings g.tags)
  exact .done g

/-- The counts have 64 bits, and the confidences are those of rules. -/
structure Context.Fits (c : Context) : Prop where
  isLevel : ∀ p ∈ c.patterns, p.confidence.IsLevel
  extraOutputs : c.purposeDetail.extraOutputs < UInt64.size
  branchCount : c.branchCount < UInt64.size
  branches : ∀ g ∈ c.branchGroups, ∀ i ∈ g.branches, i < UInt64.size

theorem Context.Fits.reads_toJson {c : Context} (h : c.Fits) : Decoder.Reads record.decode c.toJson c := by
  have hpatterns : (Decoder.list Pattern.record.decode).Reads (.array (c.patterns.map Pattern.toJson)) c.patterns :=
    .list fun p hp => Pattern.reads_toJson (h.isLevel p hp)
  have hrelated : (Decoder.list Decoder.word32).Reads (.array (c.relatedRungs.map .word32)) c.relatedRungs :=
    .list fun n _ => .word32 n
  apply Record.decode_reads (by decide)
  rw [← List.append_nil (Json.unlessEmpty "branchGroups" _ _)]
  simp only [List.append_assoc, List.cons_append, List.nil_append]
  apply Record.Writes.value rfl c.category.reads_name
  apply Record.Writes.value rfl (.string c.purpose)
  apply Record.Writes.value rfl (Purpose.reads_toJson h.extraOutputs)
  apply Record.Writes.value rfl hpatterns
  apply Record.Writes.value rfl hrelated
  apply Record.Writes.value rfl (.bool c.safetyRelevant)
  apply Record.Writes.value rfl (.strings c.inputs)
  apply Record.Writes.value rfl (.strings c.outputs)
  apply Record.Writes.unlessEmpty c.concerns (fun s _ => .string s) rfl
  apply Record.Writes.unlessEmpty c.subsystems (fun s _ => .string s) rfl
  apply Record.Writes.value rfl (.strings c.keyPoints)
  apply Record.Writes.value rfl (.count h.branchCount)
  apply Record.Writes.value rfl (.bool c.hasOptionBits)
  apply Record.Writes.unlessEmpty c.branchGroups (fun g hg => BranchGroup.reads_toJson (h.branches g hg)) rfl
  exact .done c

structure KeyTag.Fits (t : KeyTag) : Prop where
  readers : t.readers < UInt64.size
  writers : t.writers < UInt64.size
  references : t.references < UInt64.size

theorem KeyTag.Fits.reads_toJson {t : KeyTag} (h : t.Fits) : Decoder.Reads record.decode t.toJson t := by
  apply Record.decode_reads (by decide)
  apply Record.Writes.value rfl (.string t.name)
  apply Record.Writes.value rfl t.role.reads_name
  apply Record.Writes.value rfl (.count h.readers)
  apply Record.Writes.value rfl (.count h.writers)
  apply Record.Writes.value rfl (.count h.references)
  exact .done t

structure Summary.Fits (s : Summary) : Prop where
  totalRungs : s.totalRungs < UInt64.size
  safetyRungs : s.safetyRungs < UInt64.size
  motorControlRungs : s.motorControlRungs < UInt64.size
  timerRungs : s.timerRungs < UInt64.size
  counterRungs : s.counterRungs < UInt64.size
  totalTags : s.totalTags < UInt64.size
  unreferencedTags : s.unreferencedTags < UInt64.size
  patternCounts : ∀ e ∈ s.patternCounts, e.2 < UInt64.size
  categoryCounts : ∀ e ∈ s.categoryCounts, e.2 < UInt64.size
  keyTags : ∀ t ∈ s.keyTags, t.Fits

namespace Summary

theorem reads_rows {title member : String} {first : α} {decode : Decoder α} {name : α → String}
    (hmember : member ≠ "count") (hname : ∀ a, decode.Reads (.string (name a)) a) {rows : List (α × Nat)}
    (h : ∀ e ∈ rows, e.2 < UInt64.size) :
    (Decoder.list (rowRecord title member first decode).decode).Reads (.array (rows.map (row member name))) rows := by
  refine .list fun e he => Record.decode_reads ?_ ?_
  · simpa [Record.fieldNames, rowRecord, Json.Field.mandatory] using hmember
  · apply Record.Writes.value rfl (hname e.1)
    apply Record.Writes.value rfl (.count (h e he))
    exact .done e

theorem Fits.reads_toJson {s : Summary} (h : s.Fits) : Decoder.Reads record.decode s.toJson s := by
  have hkeyTags : (Decoder.list KeyTag.record.decode).Reads (.array (s.keyTags.map KeyTag.toJson)) s.keyTags :=
    .list fun t ht => (h.keyTags t ht).reads_toJson
  apply Record.decode_reads (by decide)
  apply Record.Writes.value rfl (.count h.totalRungs)
  apply Record.Writes.value rfl (.count h.safetyRungs)
  apply Record.Writes.value rfl (.count h.motorControlRungs)
  apply Record.Writes.value rfl (.count h.timerRungs)
  apply Record.Writes.value rfl (.count h.counterRungs)
  apply Record.Writes.value rfl (.count h.totalTags)
  apply Record.Writes.value rfl (.count h.unreferencedTags)
  apply Record.Writes.value rfl (reads_rows (by decide) PatternKind.reads_name h.patternCounts)
  apply Record.Writes.value rfl (reads_rows (by decide) Category.reads_name h.categoryCounts)
  apply Record.Writes.value rfl hkeyTags
  exact .done s

end Summary

structure Analysis.Fits (a : Analysis) : Prop where
  isLevel : ∀ p ∈ a.patterns, p.confidence.IsLevel
  contexts : ∀ e ∈ a.contexts.entries, e.2.Fits
  summary : a.summary.Fits

theorem Analysis.Fits.reads_toJson {a : Analysis} (h : a.Fits) : Decoder.Reads record.decode a.toJson a := by
  have htags := NameMap.reads_toJson fun e (_ : e ∈ a.tagUsage.entries) => TagUsage.reads_toJson e.2
  have hcontexts := NameMap.reads_toJson fun e he => (h.contexts e he).reads_toJson
  have hpatterns : (Decoder.list Pattern.record.decode).Reads (.array (a.patterns.map Pattern.toJson)) a.patterns :=
    .list fun p hp => Pattern.reads_toJson (h.isLevel p hp)
  apply Record.decode_reads (by decide)
  apply Record.Writes.value rfl htags
  apply Record.Writes.value rfl hpatterns
  apply Record.Writes.value rfl hcontexts
  apply Record.Writes.value rfl h.summary.reads_toJson
  exact .done a

end LadderLogic
