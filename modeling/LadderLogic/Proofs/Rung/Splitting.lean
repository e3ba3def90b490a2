import LadderLogic.Proofs.Rung.Malformed
import LadderLogic.Proofs.Rung.Render

/-! Texts cut at their outer commas. The count of open brackets is zero at each cut and can begin at zero again
behind it, so that each part tells by itself that it is not to be cut further. -/
namespace LadderLogic

theorem Text.trimChars_append_of_isBlank (cs : List Char) {b : List Char} (h : ∀ c ∈ b, isBlank c) :
    trimChars (cs ++ b) = trimChars cs := by
  have hreverse : ∀ c ∈ b.reverse, isBlank c := fun c hc => h c (List.mem_reverse.1 hc)
  unfold trimChars
  rw [List.dropWhile_append]
  split
  · next hblank =>
    rw [List.dropWhile_eq_nil_iff.2 h, List.isEmpty_iff.1 hblank]
  · rw [List.reverse_append, List.dropWhile_append_of_pos hreverse]

namespace Delimited
open Text (trimChars isBlank)

/-- The places of the commas that stand at depth zero, when the text begins at a given depth. -/
def outerCommasFrom (depth : Nat) (cs : List Char) : List Nat :=
  (List.range cs.length).filter fun i => cs[i]? = some ',' ∧ depthBehind depth (cs.take i) = 0

/-- The places of the commas outside all brackets. -/
def outerCommas (cs : List Char) : List Nat :=
  outerCommasFrom 0 cs

theorem outerCommasFrom_cons (depth : Nat) (c : Char) (cs : List Char) :
    outerCommasFrom depth (c :: cs) =
      (if c = ',' ∧ depth = 0 then [0] else []) ++ (outerCommasFrom (depthAfter depth c) cs).map (· + 1) := by
  have hrange : List.range (c :: cs).length = 0 :: (List.range cs.length).map (· + 1) :=
    List.range_succ_eq_map
  have hbehind : ∀ i, depthBehind depth ((c :: cs).take (i + 1)) = depthBehind (depthAfter depth c) (cs.take i) :=
    fun _ => rfl
  unfold outerCommasFrom
  rw [hrange, List.filter_cons, List.filter_map]
  simp only [Function.comp_def, List.getElem?_cons_succ, List.getElem?_cons_zero, Option.some.injEq, hbehind,
    List.take_zero, decide_eq_true_eq]
  split <;> simp_all [depthBehind]

/-- There is one part more than outer commas. -/
theorem length_splitFrom (depth : Nat) (cs : List Char) :
    (splitFrom depth cs).length = (outerCommasFrom depth cs).length + 1 := by
  induction cs generalizing depth with
  | nil => rfl
  | cons c cs ih =>
    have hrest := ih (depthAfter depth c)
    rw [outerCommasFrom_cons, List.length_append, List.length_map]
    by_cases hcomma : c = ',' ∧ depth = 0
    · obtain ⟨rfl, rfl⟩ := hcomma
      have hsplit : splitFrom 0 (',' :: cs) = [] :: splitFrom (depthAfter 0 ',') cs := rfl
      simp only [hsplit, List.length_cons, hrest, and_self, if_true, List.length_nil]
      omega
    · have hnot : (c == ',' && depth == 0) = false := by simpa using hcomma
      obtain ⟨part, parts, hparts⟩ := List.exists_cons_of_ne_nil (splitFrom_ne_nil (depthAfter depth c) cs)
      rw [hparts] at hrest
      simp only [splitFrom, hnot, hparts, Bool.false_eq_true, if_false, extend, if_neg hcomma, List.length_nil,
        Nat.zero_add]
      exact hrest

theorem outerCommas_eq_nil_of_splitTopLevel {cs : List Char} (h : splitTopLevel cs = [cs]) :
    outerCommas cs = [] := by
  have hlength := length_splitFrom 0 cs
  rw [← splitTopLevel, h] at hlength
  exact List.length_eq_zero_iff.1 (Nat.succ.inj hlength).symm

theorem Separable.depthBehind_of_mem_dropLast {parts : List (List Char)} (h : Separable parts) :
    ∀ part ∈ parts.dropLast, depthBehind 0 part = 0 := by
  intro part hpart
  have hne : parts ≠ [] := by
    rintro rfl
    cases hpart
  have hclosed := h.closed
  rw [← List.dropLast_append_getLast hne] at hclosed
  exact (List.pairwise_append.1 hclosed).2.2 part hpart _ (List.mem_singleton_self _)

/-- A text without outer commas goes to the last part of the text before it. -/
theorem exists_splitFrom_append {depth : Nat} {cs b : List Char} (h : splitFrom (depthBehind depth cs) b = [b]) :
    ∃ parts last, splitFrom depth cs = parts ++ [last] ∧ splitFrom depth (cs ++ b) = parts ++ [last ++ b] := by
  induction cs generalizing depth with
  | nil => exact ⟨[], [], rfl, h⟩
  | cons c cs ih =>
    obtain ⟨parts, last, hcs, hmore⟩ := ih h
    by_cases hcomma : c = ',' ∧ depth = 0
    · obtain ⟨rfl, rfl⟩ := hcomma
      exact ⟨[] :: parts, last, congrArg ([] :: ·) hcs, congrArg ([] :: ·) hmore⟩
    · have hnot : (c == ',' && depth == 0) = false := by simpa using hcomma
      simp only [List.cons_append, splitFrom, hnot, Bool.false_eq_true, if_false, hcs, hmore]
      cases parts with
      | nil => exact ⟨[], c :: last, rfl, rfl⟩
      | cons part parts => exact ⟨(c :: part) :: parts, last, rfl, rfl⟩

theorem splitFrom_of_isBlank {b : List Char} (h : ∀ c ∈ b, isBlank c) (depth : Nat) :
    splitFrom depth b = [b] := by
  induction b generalizing depth with
  | nil => rfl
  | cons c b ih =>
    obtain ⟨hc, hb⟩ := List.forall_mem_cons.1 h
    rw [splitFrom_cons_eq_singleton]
    exact ⟨fun hcomma => Text.ne_of_isBlank hc rfl hcomma.1, ih hb _⟩

end Delimited

namespace Call
open Text (trimChars isBlank)

theorem operandParts_append_of_isBlank (cs : List Char) {b : List Char} (h : ∀ c ∈ b, isBlank c) :
    operandParts (cs ++ b) = operandParts cs := by
  obtain ⟨parts, last, hcs, hmore⟩ := Delimited.exists_splitFrom_append
    (Delimited.splitFrom_of_isBlank h (Delimited.depthBehind 0 cs))
  unfold operandParts Delimited.splitTopLevel
  rw [hcs, hmore, List.map_append, List.map_append, List.map_singleton, List.map_singleton,
    Text.trimChars_append_of_isBlank last h]

theorem toInstruction_append_of_isBlank (name body : List Char) {b : List Char} (h : ∀ c ∈ b, isBlank c) :
    toInstruction ⟨name, body ++ b⟩ = toInstruction ⟨name, body⟩ := by
  unfold toInstruction
  rw [operands_eq_map_operandParts, operands_eq_map_operandParts, operandParts_append_of_isBlank body h]

theorem isNameStart_of_isBlank {c : Char} (h : isBlank c) : isNameStart c = false := by
  have hne : c ≠ '_' := Text.ne_of_isBlank h rfl
  simp only [isBlank, Bool.or_eq_true, Bool.and_eq_true, decide_eq_true_eq, beq_iff_eq] at h
  have hupper : ¬(65 ≤ c.toNat ∧ c.toNat ≤ 90) := by omega
  have hlower : ¬(97 ≤ c.toNat ∧ c.toNat ≤ 122) := by omega
  rw [isNameStart, Bool.or_eq_false_iff, beq_eq_false_iff_ne]
  refine ⟨?_, hne⟩
  unfold Char.isAlpha Char.isUpper Char.isLower
  rw [Bool.or_eq_false_iff]
  exact ⟨by simpa [UInt32.le_iff_toNat_le] using hupper, by simpa [UInt32.le_iff_toNat_le] using hlower⟩

theorem all_append_of_isBlank {a : List Char} (h : ∀ c ∈ a, isBlank c) (cs : List Char) :
    all (a ++ cs) = all cs := by
  induction a with
  | nil => rfl
  | cons c a ih =>
    obtain ⟨hc, ha⟩ := List.forall_mem_cons.1 h
    have hstep : all (c :: (a ++ cs)) = all (a ++ cs) := by
      simp [all, scan, isNameStart_of_isBlank hc]
    rw [List.cons_append, hstep, ih ha]

/-- Without parentheses a text goes to the body of the call around it. -/
theorem scan_inside_of_not_mem {b : List Char} (hopen : '(' ∉ b) (hclose : ')' ∉ b) (name : List Char)
    (more : Nat) (body : List Char) : scan (.inside name more body) b = [⟨name, body ++ b⟩] := by
  induction b generalizing body with
  | nil => rw [List.append_nil]; rfl
  | cons c b ih =>
    rw [List.mem_cons, not_or] at hopen hclose
    have hrest := ih hopen.2 hclose.2 (body ++ [c])
    rw [List.append_assoc, List.singleton_append] at hrest
    rw [← hrest]
    simp [scan, Ne.symm hopen.1, Ne.symm hclose.1]

/-- Blanks behind a text go to the body of a call that is never closed, and do not change its
operands. -/
theorem map_toInstruction_scan_append (s : Scan) (cs : List Char) {b : List Char} (h : ∀ c ∈ b, isBlank c) :
    (scan s (cs ++ b)).map toInstruction = (scan s cs).map toInstruction := by
  have hopen : '(' ∉ b := fun hmem => absurd (h _ hmem) (by decide)
  have hclose : ')' ∉ b := fun hmem => absurd (h _ hmem) (by decide)
  induction cs generalizing s with
  | nil =>
    cases s with
    | outside name => rw [List.nil_append, scan_outside_of_not_mem hopen name]; rfl
    | inside name more body =>
      rw [List.nil_append, scan_inside_of_not_mem hopen hclose]
      exact congrArg (fun i => [i]) (toInstruction_append_of_isBlank name body h)
  | cons c cs ih => rw [List.cons_append, scan_cons, scan_cons, List.map_append, List.map_append, ih]

end Call

theorem Instruction.allIn_trimChars (cs : List Char) : allIn (Text.trimChars cs) = allIn cs := by
  obtain ⟨a, b, hcs, ha, hb⟩ := Text.exists_blank_append_trimChars cs
  have hall : Call.all cs = Call.all (Text.trimChars cs ++ b) := by
    conv => lhs; rw [hcs]
    exact Call.all_append_of_isBlank ha _
  rw [allIn, allIn, hall]
  exact (Call.map_toInstruction_scan_append _ _ hb).symm

namespace Circuit
open Delimited

theorem branches_of_split? {text : String} {x : Split} (h : split? text.toList = some x) :
    (ofText text).branches = (splitTopLevel x.group).zipIdx.map fun (part, index) => branch part index := by
  simp only [ofText, ofChars, h]

theorem instructions_of_mem_branches {text : String} {b : Branch} (h : b ∈ (ofText text).branches) :
    b.instructions = Instruction.allIn b.text.toList := by
  cases hsplit : split? text.toList with
  | none => simp [ofText, ofChars, hsplit] at h
  | some x =>
    rw [branches_of_split? hsplit] at h
    obtain ⟨⟨part, index⟩, -, rfl⟩ := List.mem_map.1 h
    simp only [branch, String.toList_ofList, Instruction.allIn_trimChars]

end Circuit

namespace Delimited
open Circuit (split? ofText)

/-- With commas between them, the parts of a text are the text. There is one part more than outer
commas, no part has an outer comma of its own, and each part but the last one ends at depth zero. So a
group has a branch, and one more for each of its outer commas. The instructions of a branch are those of
its text without blanks around it. -/
theorem splitTopLevel_lossless :
    (∀ cs : List Char, [','].intercalate (splitTopLevel cs) = cs ∧
      (splitTopLevel cs).length = (outerCommas cs).length + 1 ∧
      (∀ part ∈ splitTopLevel cs, outerCommas part = []) ∧
      ∀ part ∈ (splitTopLevel cs).dropLast, depthBehind 0 part = 0) ∧
    ∀ text : String,
      (∀ x, split? text.toList = some x → (ofText text).branches.length = (outerCommas x.group).length + 1) ∧
      ∀ b ∈ (ofText text).branches, b.instructions = Instruction.allIn b.text.toList := by
  refine ⟨fun cs => ⟨intercalate_splitTopLevel cs, length_splitFrom 0 cs, ?_, ?_⟩, fun text => ⟨?_, ?_⟩⟩
  · intro part hpart
    exact outerCommas_eq_nil_of_splitTopLevel ((separable_splitTopLevel cs).whole part hpart)
  · exact (separable_splitTopLevel cs).depthBehind_of_mem_dropLast
  · intro x hx
    rw [Circuit.branches_of_split? hx, List.length_map, List.length_zipIdx]
    exact length_splitFrom 0 x.group
  · intro b hb
    exact Circuit.instructions_of_mem_branches hb

/-- The parenthesis behind the first leg closes nothing, and the last bracket stays open. -/
theorem splitTopLevel_lossless_unmatched :
    let text := "XIC(A) [XIC(B)) , OTE(C,D) ,MOV([E,F"
    ∃ x, split? text.toList = some x ∧ x.group = "XIC(B)) , OTE(C,D) ,MOV([E,F".toList ∧
      outerCommas x.group = [8, 19] ∧ (ofText text).branches.length = 3 := by
  intro text
  obtain ⟨x, hx⟩ : ∃ x, split? text.toList = some x := Option.isSome_iff_exists.1 (by decide +kernel)
  have hgroup : x.group = "XIC(B)) , OTE(C,D) ,MOV([E,F".toList := by
    have hmap : (split? text.toList).map (·.group) = some "XIC(B)) , OTE(C,D) ,MOV([E,F".toList := by
      decide +kernel
    rw [hx] at hmap
    exact Option.some.inj hmap
  have hcommas : outerCommas x.group = [8, 19] := by
    rw [hgroup]
    decide +kernel
  have hlength := (splitTopLevel_lossless.2 text).1 x hx
  rw [hcommas] at hlength
  exact ⟨x, hx, hgroup, hcommas, hlength⟩

end Delimited

end LadderLogic
