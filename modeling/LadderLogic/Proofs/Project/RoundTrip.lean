import LadderLogic.Analysis.Text
import LadderLogic.Proofs.Instruction.Operand
import LadderLogic.Proofs.Json.Record

/-! A project and its settings are read back from their texts. -/
namespace LadderLogic

open Json (Decoder Record)

namespace Instruction

theorem reads_toJson (i : Instruction) : Decoder.Reads record.decode i.toJson i := by
  have hoperands : (Decoder.list Decoder.string).Reads (.strings i.operands) i.operands :=
    .list fun s _ => .string s
  apply Record.decode_reads (by decide)
  rw [← List.append_nil (Json.optional "branchStart" _)]
  simp only [List.append_assoc, List.cons_append, List.nil_append]
  apply Record.Writes.value rfl (.string i.kind)
  apply Record.Writes.value rfl hoperands
  apply Record.Writes.option i.branchLeg .word32 nofun rfl
  apply Record.Writes.option i.branchLevel .word32 nofun rfl
  apply Record.Writes.option i.branchStart .bool nofun rfl
  exact .done i

end Instruction

namespace Rung

theorem reads_toJson (r : Rung) : Decoder.Reads record.decode r.toJson r := by
  have hinstructions : (Decoder.list Instruction.record.decode).Reads
      (.array (r.instructions.map Instruction.toJson)) r.instructions :=
    .list fun i _ => i.reads_toJson
  apply Record.decode_reads (by decide)
  simp only [List.singleton_append]
  apply Record.Writes.value rfl (.word32 r.number)
  apply Record.Writes.option r.comment .string nofun rfl
  apply Record.Writes.value rfl (.string r.text)
  apply Record.Writes.value rfl hinstructions
  exact .done r

end Rung

namespace Routine

theorem reads_toJson (r : Routine) : Decoder.Reads record.decode r.toJson r := by
  have hrungs : (Decoder.list Rung.record.decode).Reads (.array (r.rungs.map Rung.toJson)) r.rungs :=
    .list fun rung _ => rung.reads_toJson
  apply Record.decode_reads (by decide)
  apply Record.Writes.value rfl (.string r.name)
  apply Record.Writes.value rfl (.string r.kind)
  apply Record.Writes.value rfl hrungs
  exact .done r

end Routine

namespace Tag

theorem reads_toJson (t : Tag) : Decoder.Reads record.decode t.toJson t := by
  apply Record.decode_reads (by decide)
  rw [← List.append_nil (Json.optional "description" _)]
  simp only [List.cons_append, List.nil_append]
  apply Record.Writes.value rfl (.string t.name)
  apply Record.Writes.value rfl (.string t.dataType)
  apply Record.Writes.value rfl (.string t.scope)
  apply Record.Writes.option t.description .string nofun rfl
  exact .done t

theorem reads_tags (tags : List Tag) :
    (Decoder.list record.decode).Reads (.array (tags.map toJson)) tags :=
  .list fun t _ => t.reads_toJson

end Tag

namespace Program

theorem reads_toJson (p : Program) : Decoder.Reads record.decode p.toJson p := by
  have hroutines : (Decoder.list Routine.record.decode).Reads (.array (p.routines.map Routine.toJson)) p.routines :=
    .list fun r _ => r.reads_toJson
  apply Record.decode_reads (by decide)
  apply Record.Writes.value rfl (.string p.name)
  apply Record.Writes.value rfl hroutines
  apply Record.Writes.value rfl (Tag.reads_tags p.tags)
  exact .done p

end Program

namespace Project

theorem reads_toJson (p : Project) : Decoder.Reads record.decode p.toJson p := by
  have hprograms : (Decoder.list Program.record.decode).Reads (.array (p.programs.map Program.toJson)) p.programs :=
    .list fun program _ => program.reads_toJson
  apply Record.decode_reads (by decide)
  apply Record.Writes.value rfl hprograms
  apply Record.Writes.value rfl (Tag.reads_tags p.tags)
  exact .done p

end Project

namespace Settings

theorem reads_toJson (s : Settings) : Decoder.Reads record.decode s.toJson s := by
  apply Record.decode_reads (by decide)
  apply Record.Writes.value rfl (.word64 s.maxKeyTags)
  apply Record.Writes.value rfl (.word64 s.keyTagMinReferences)
  apply Record.Writes.value rfl (.word64 s.maxKeyPoints)
  apply Record.Writes.value rfl (.word64 s.statusOverrideMinOutputs)
  exact .done s

end Settings

namespace Json

theorem exists_append_compactMembers (first : Bool) (members : List (String × Json)) :
    ∃ cs, compactMembers first members = cs ++ ['\x7d'] := by
  induction members generalizing first with
  | nil => exact ⟨[], rfl⟩
  | cons m members ih =>
    obtain ⟨cs, hcs⟩ := ih false
    rw [compactMembers, hcs, ← List.append_assoc]
    exact ⟨_, rfl⟩

theorem isBlankText_compact_object (members : List (String × Json)) :
    Text.isBlankText (Json.object members).compact = false := by
  rw [Text.isBlankText, compact, String.toList_ofList, compactChars]
  rfl

/-- The text of an object stands between braces. -/
theorem trim_compact_object (members : List (String × Json)) :
    Text.trim (Json.object members).compact = (Json.object members).compact := by
  obtain ⟨cs, hcs⟩ := exists_append_compactMembers true members
  have hchars : Text.trimChars ('\x7b' :: (cs ++ ['\x7d'])) = '\x7b' :: (cs ++ ['\x7d']) := by
    rw [Text.trimChars_eq, List.dropWhile_cons_of_neg (by decide), ← List.cons_append,
      List.rdropWhile_concat_neg _ _ _ (by decide)]
  rw [Text.trim, compact, String.toList_ofList, compactChars, hcs, hchars]

end Json

/-- What is written for a project or for settings is read as the same project and the same settings. -/
theorem read_compact_toJson :
    (∀ p : Project, Project.read p.toJson.compact = .ok p) ∧
      ∀ s : Settings, Settings.read s.toJson.compact = .ok s := by
  constructor
  · intro p
    rw [Project.read, Project.ofText, p.reads_toJson.readText_eq]
    rfl
  · intro s
    have hblank : Text.isBlankText s.toJson.compact = false := Json.isBlankText_compact_object _
    have htrim : Text.trim s.toJson.compact = s.toJson.compact := Json.trim_compact_object _
    rw [Settings.read, Settings.ofText, hblank, htrim, s.reads_toJson.readText_eq]
    rfl

end LadderLogic
