import LadderLogic.Instruction.Operand
import Mathlib.Data.List.DropRight

/-! Blanks around an operand. -/
namespace LadderLogic

theorem Text.trimChars_eq (cs : List Char) :
    trimChars cs = (cs.dropWhile isBlank).rdropWhile isBlank := rfl

@[simp] theorem Text.trimChars_trimChars (cs : List Char) : trimChars (trimChars cs) = trimChars cs := by
  have hhead : (trimChars cs).dropWhile isBlank = trimChars cs := by
    rw [List.dropWhile_eq_self_iff]
    intro hpos hblank
    -- The trimmed text starts as the text without its leading blanks does.
    have hpre : trimChars cs <+: cs.dropWhile isBlank := List.rdropWhile_prefix _ _
    have hlen := hpre.length_le
    rw [hpre.getElem hpos] at hblank
    exact List.dropWhile_get_zero_not isBlank cs (by omega) hblank
  rw [trimChars_eq (trimChars cs), hhead, trimChars_eq, List.rdropWhile_idempotent]

theorem Text.trimChars_eq_nil_iff {cs : List Char} : trimChars cs = [] ↔ cs.all isBlank = true := by
  rw [trimChars_eq, List.rdropWhile_eq_nil_iff, List.all_eq_true]
  constructor
  · intro h c hc
    rw [← List.takeWhile_append_dropWhile (p := isBlank) (l := cs), List.mem_append] at hc
    rcases hc with hc | hc
    · exact List.mem_takeWhile_imp hc
    · exact h c hc
  · intro h c hc
    exact h c ((List.dropWhile_suffix _).subset hc)

@[simp] theorem Text.trim_trim (s : String) : trim (trim s) = trim s := by
  unfold trim
  rw [String.toList_ofList, trimChars_trimChars]

@[simp] theorem Operand.isTag_trim (s : String) : isTag (Text.trim s) = isTag s := by
  unfold isTag Text.trim
  rw [String.toList_ofList, Text.trimChars_trimChars]

end LadderLogic
