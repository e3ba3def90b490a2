import LadderLogic.Rung.View
import LadderLogic.Proofs.Rung.Group
import Mathlib.Data.List.Basic
import Mathlib.Tactic.MkIffOfInductiveProp

/-! Instructions written as text and read again. Calls of plain names with plain operands come back as they
were. -/
namespace LadderLogic

theorem Text.toList_joined (separator : String) (ss : List String) :
    (joined separator ss).toList = separator.toList.intercalate (ss.map String.toList) := by
  induction ss with
  | nil => rfl
  | cons s rest ih =>
    cases rest with
    | nil => simp [joined]
    | cons t rest => simp [joined, ih, List.intercalate_cons_cons]

/-- A text that splitting at commas and trimming leave as it is. -/
@[mk_iff]
structure Operand.Plain (operand : String) : Prop where
  nonempty : operand ≠ ""
  trimmed : Text.trim operand = operand
  nested : Nesting.WellNested operand.toList
  commas : Nesting.NoOuterComma operand.toList

instance (operand : String) : Decidable (Operand.Plain operand) :=
  decidable_of_iff _ (Operand.plain_iff operand).symm

theorem Operand.Plain.trimChars_toList {operand : String} (h : Operand.Plain operand) :
    Text.trimChars operand.toList = operand.toList := by
  have htrim := congrArg String.toList h.trimmed
  rwa [Text.trim, String.toList_ofList] at htrim

/-- A letter or underscore, then letters, digits and underscores. -/
def Call.IsName : List Char → Prop
  | [] => False
  | c :: cs => isNameStart c ∧ ∀ d ∈ cs, isNameChar d

instance Call.decidableIsName : DecidablePred Call.IsName
  | [] => isFalse id
  | c :: cs => decidable_of_iff (isNameStart c ∧ cs.all isNameChar) (by simp [IsName])

/-- An instruction that is written as one call and has no data beside it. -/
@[mk_iff]
structure Instruction.Plain (i : Instruction) : Prop where
  name : Call.IsName i.kind.toList
  operands : ∀ operand ∈ i.operands, Operand.Plain operand
  branchLeg : i.branchLeg = none
  branchLevel : i.branchLevel = none
  branchStart : i.branchStart = none

instance (i : Instruction) : Decidable i.Plain :=
  decidable_of_iff _ (Instruction.plain_iff i).symm

namespace Call

theorem isNameChar_of_isNameStart {c : Char} (h : isNameStart c) : isNameChar c := by
  simp only [isNameStart, Bool.or_eq_true] at h
  simp only [isNameChar, Char.isAlphanum, Bool.or_eq_true]
  exact h.imp_left Or.inl

theorem IsName.isNameChar {cs : List Char} (h : IsName cs) : ∀ c ∈ cs, isNameChar c := by
  cases cs with
  | nil => cases h
  | cons c cs => exact List.forall_mem_cons.2 ⟨isNameChar_of_isNameStart h.1, h.2⟩

theorem scan_outside_append {name cs : List Char} (hname : name ≠ []) (h : ∀ c ∈ cs, isNameChar c)
    (rest : List Char) : scan (.outside name) (cs ++ '(' :: rest) = scan (.inside (name ++ cs) 0 []) rest := by
  induction cs generalizing name with
  | nil => simp [scan, hname]
  | cons c cs ih =>
    obtain ⟨hc, hcs⟩ := List.forall_mem_cons.1 h
    have hstep := ih (List.append_ne_nil_of_right_ne_nil name (List.cons_ne_nil c [])) hcs
    rw [List.cons_append, scan_cons, Scan.next_outside (Or.inr ⟨hc, hname⟩)]
    simpa [Scan.completed] using hstep

theorem scan_name {cs : List Char} (h : IsName cs) (rest : List Char) :
    scan (.outside []) (cs ++ '(' :: rest) = scan (.inside cs 0 []) rest := by
  cases cs with
  | nil => cases h
  | cons c cs =>
    rw [List.cons_append, scan_cons, Scan.next_outside (Or.inl h.1)]
    exact scan_outside_append (List.cons_ne_nil c []) h.2 rest

/-- In a call, a text whose brackets match goes to the body. -/
theorem scan_inside_append {stack stack' : List Bracket} {cs : List Char}
    (h : Nesting.unclosed stack cs = some stack') (name body rest : List Char) :
    scan (.inside name (Nesting.rounds stack) body) (cs ++ rest) =
      scan (.inside name (Nesting.rounds stack') (body ++ cs)) rest := by
  induction cs generalizing stack body with
  | nil => cases h; simp
  | cons c cs ih =>
    obtain ⟨mid, hstep, hrest⟩ := Nesting.unclosed_cons_eq_some h
    have hmid := ih hrest (body ++ [c])
    rw [List.append_assoc, List.singleton_append] at hmid
    rw [← hmid, List.cons_append]
    rcases Nesting.step_cases hstep with
      ⟨rfl, rfl⟩ | ⟨rfl, rfl⟩ | ⟨rfl, rfl⟩ | ⟨rfl, rfl⟩ | ⟨⟨h₁, h₂, -, -⟩, rfl⟩
    · simp [scan, Nesting.rounds]
    · simp [scan, Nesting.rounds]
    · simp [scan, Nesting.rounds]
    · simp [scan, Nesting.rounds]
    · simp [scan, h₁, h₂]

theorem all_call_append {name body : List Char} (hname : IsName name) (hbody : Nesting.WellNested body)
    (rest : List Char) : all (name ++ '(' :: (body ++ ')' :: rest)) = ⟨name, body⟩ :: all rest := by
  have hinside := scan_inside_append hbody name [] (')' :: rest)
  rw [Nesting.rounds_nil, List.nil_append] at hinside
  rw [all, scan_name hname, hinside]
  rfl

theorem scan_outside_of_not_mem {cs : List Char} (h : '(' ∉ cs) (name : List Char) :
    scan (.outside name) cs = [] := by
  induction cs generalizing name with
  | nil => rfl
  | cons c cs ih =>
    obtain ⟨hc, hcs⟩ := not_or.1 (mt List.mem_cons.2 h)
    simp only [scan, beq_false_of_ne (Ne.symm hc), Bool.false_and, Bool.false_eq_true, if_false]
    split
    · exact ih hcs _
    · exact ih hcs _

theorem operands_intercalate {operands : List String} (h : ∀ operand ∈ operands, Operand.Plain operand) :
    Call.operands ([','].intercalate (operands.map String.toList)) = operands := by
  have hseparable : Delimited.Separable (operands.map String.toList) := by
    refine Delimited.separable_of_wellNested fun part hpart => ?_
    obtain ⟨operand, hmem, rfl⟩ := List.mem_map.1 hpart
    exact ⟨(h operand hmem).nested, (h operand hmem).commas⟩
  have htrim : ∀ part ∈ operands.map String.toList, Text.trimChars part = part ∧ part ≠ [] := by
    intro part hpart
    obtain ⟨operand, hmem, rfl⟩ := List.mem_map.1 hpart
    exact ⟨(h operand hmem).trimChars_toList, by simpa using (h operand hmem).nonempty⟩
  rw [operands_eq_map_operandParts, operandParts_intercalate hseparable htrim]
  simp

theorem toInstruction_of_plain {i : Instruction} (h : i.Plain) :
    toInstruction ⟨i.kind.toList, [','].intercalate (i.operands.map String.toList)⟩ = i := by
  obtain ⟨kind, operands, leg, level, start⟩ := i
  obtain ⟨-, hoperands, rfl, rfl, rfl⟩ := h
  simp [toInstruction, operands_intercalate hoperands]

end Call

theorem Instruction.toList_render (i : Instruction) :
    i.render.toList =
      i.kind.toList ++ '(' :: ([','].intercalate (i.operands.map String.toList) ++ [')']) := by
  simp [render, Text.toList_joined]

namespace Circuit
open Nesting

/-- Inside parentheses no group begins. -/
theorem splitFrom_line_append_eq_none {stack stack' : List Bracket} {cs : List Char}
    (h : unclosed stack cs = some stack') (rest : List Char) :
    splitFrom (.line (rounds stack + 1)) (cs ++ rest) = none ↔
      splitFrom (.line (rounds stack' + 1)) rest = none := by
  induction cs generalizing stack with
  | nil => cases h; rfl
  | cons c cs ih =>
    obtain ⟨mid, hstep, hrest⟩ := unclosed_cons_eq_some h
    rw [← ih hrest, List.cons_append]
    rcases step_cases hstep with ⟨rfl, rfl⟩ | ⟨rfl, rfl⟩ | ⟨rfl, rfl⟩ | ⟨rfl, rfl⟩ | ⟨⟨h₁, h₂, -, -⟩, rfl⟩
    · simp [splitFrom, rounds]
    · simp [splitFrom, rounds]
    · simp [splitFrom, rounds]
    · simp [splitFrom, rounds]
    · simp [splitFrom, h₁, h₂]

theorem splitFrom_line_eq_none_of_not_mem {cs : List Char} (h : '[' ∉ cs) (depth : Nat) :
    splitFrom (.line depth) cs = none := by
  induction cs generalizing depth with
  | nil => rfl
  | cons c cs ih =>
    obtain ⟨hc, hcs⟩ := not_or.1 (mt List.mem_cons.2 h)
    simp [splitFrom, Ne.symm hc, ih hcs]

theorem split?_name_append_eq_none {cs : List Char} (h : ∀ c ∈ cs, Call.isNameChar c) (rest : List Char) :
    split? (cs ++ rest) = none ↔ split? rest = none := by
  induction cs with
  | nil => rfl
  | cons c cs ih =>
    obtain ⟨hc, hcs⟩ := List.forall_mem_cons.1 h
    have hne : c ≠ '(' ∧ c ≠ ')' ∧ c ≠ '[' := by
      refine ⟨?_, ?_, ?_⟩ <;> rintro rfl <;> exact absurd hc (by decide)
    rw [← ih hcs]
    simp [split?, splitFrom, hne]

theorem split?_call_append_eq_none {name body : List Char} (hname : Call.IsName name) (hbody : WellNested body)
    (rest : List Char) :
    split? (name ++ '(' :: (body ++ ')' :: rest)) = none ↔ split? rest = none := by
  rw [split?_name_append_eq_none hname.isNameChar]
  have hinside := splitFrom_line_append_eq_none hbody (')' :: rest)
  simpa [split?, splitFrom] using hinside

/-- Behind a call there is nothing, or a blank and further calls. -/
theorem exists_tail_intercalate (part : List Char) (parts : List (List Char)) :
    ∃ tail, [' '].intercalate (part :: parts) = part ++ tail ∧
      Call.all tail = Call.all ([' '].intercalate parts) ∧
      (split? tail = none ↔ split? ([' '].intercalate parts) = none) := by
  cases parts with
  | nil => exact ⟨[], by simp, rfl, Iff.rfl⟩
  | cons next parts =>
    refine ⟨' ' :: [' '].intercalate (next :: parts), by simp [List.intercalate_cons_cons], rfl, ?_⟩
    simp [split?, splitFrom]

theorem all_split?_intercalate_render {is : List Instruction} (h : ∀ i ∈ is, i.Plain) :
    (Call.all ([' '].intercalate (is.map (·.render.toList)))).map Call.toInstruction = is ∧
      split? ([' '].intercalate (is.map (·.render.toList))) = none := by
  induction is with
  | nil => exact ⟨rfl, rfl⟩
  | cons i is ih =>
    obtain ⟨hi, his⟩ := List.forall_mem_cons.1 h
    obtain ⟨hall, hsplit⟩ := ih his
    obtain ⟨tail, htext, hallTail, hsplitTail⟩ :=
      exists_tail_intercalate i.render.toList (is.map (·.render.toList))
    have hbody : WellNested ([','].intercalate (i.operands.map String.toList)) := by
      refine wellNested_intercalate fun part hpart => ?_
      obtain ⟨operand, hmem, rfl⟩ := List.mem_map.1 hpart
      exact (hi.operands operand hmem).nested
    have hrender : i.render.toList ++ tail =
        i.kind.toList ++ '(' :: ([','].intercalate (i.operands.map String.toList) ++ ')' :: tail) := by
      simp [Instruction.toList_render]
    rw [List.map_cons, htext, hrender]
    constructor
    · rw [Call.all_call_append hi.name hbody, List.map_cons, Call.toInstruction_of_plain hi, hallTail, hall]
    · rw [split?_call_append_eq_none hi.name hbody, hsplitTail, hsplit]

theorem ofText_of_isBlankText {text : String} (h : Text.isBlankText text) : ofText text = {} := by
  have hblank : ∀ c ∈ text.toList, Text.isBlank c := by simpa [Text.isBlankText] using h
  have hgroup : split? text.toList = none :=
    splitFrom_line_eq_none_of_not_mem (fun hmem => absurd (hblank _ hmem) (by decide)) 0
  have hcalls : Call.all text.toList = [] :=
    Call.scan_outside_of_not_mem (fun hmem => absurd (hblank _ hmem) (by decide)) []
  simp [ofText, ofChars, hgroup, Instruction.allIn, hcalls]

end Circuit

theorem Rung.allInstructions_of_isBlankText {r : Rung} (h : Text.isBlankText r.text) :
    r.allInstructions = r.instructions := by
  unfold Rung.allInstructions
  split
  · next hnil =>
    rw [Circuit.ofText_of_isBlankText h]
    exact (List.isEmpty_iff.1 hnil).symm
  · rfl

namespace View

/-- The circuit is that of the rung's text, so it has the instructions of the rung. -/
theorem instructions_circuit_ofRung {rung : Rung} (h : rung.instructions = []) (program routine : String) :
    (ofRung program routine rung).circuit.instructions = (ofRung program routine rung).instructions := by
  simp only [ofRung]
  by_cases hblank : Text.isBlankText rung.text
  · -- There is nothing to write in the place of a blank text.
    rw [Rung.allInstructions_of_isBlankText hblank, h, textOf, if_pos hblank]
    rfl
  · rw [textOf, if_neg hblank]
    simp [Rung.allInstructions, h]

end View

namespace Circuit

/-- Plain instructions that are written with blanks between them are read as one line that has them
again. So the view of a rung without text has the circuit and the one path of its instructions. -/
theorem ofText_joined_render {is : List Instruction} (h : ∀ i ∈ is, i.Plain) :
    ofText (Text.joined " " (is.map Instruction.render)) = { before := is } ∧
      Instruction.allIn (Text.joined " " (is.map Instruction.render)).toList = is ∧
      ∀ (program routine : String) (rung : Rung), Text.isBlankText rung.text → rung.instructions = is →
        (View.ofRung program routine rung).instructions = is ∧
          (View.ofRung program routine rung).circuit.instructions = is ∧
          (View.ofRung program routine rung).paths = [is] := by
  have htext : (Text.joined " " (is.map Instruction.render)).toList =
      [' '].intercalate (is.map (·.render.toList)) := by
    simp [Text.toList_joined, Function.comp_def]
  obtain ⟨hall, hsplit⟩ := all_split?_intercalate_render h
  have hcircuit : ofText (Text.joined " " (is.map Instruction.render)) = { before := is } := by
    simp [ofText, ofChars, htext, hsplit, Instruction.allIn, hall]
  refine ⟨hcircuit, by rw [htext]; exact hall, ?_⟩
  intro program routine rung hblank hgiven
  have hinstructions : (View.ofRung program routine rung).instructions = is :=
    (Rung.allInstructions_of_isBlankText hblank).trans hgiven
  have hview : (View.ofRung program routine rung).circuit = { before := is } := by
    simp only [View.ofRung]
    rw [Rung.allInstructions_of_isBlankText hblank, hgiven, View.textOf, if_pos hblank, hcircuit]
  refine ⟨hinstructions, by simp [hview, instructions], ?_⟩
  unfold View.paths
  rw [hinstructions, hview]
  simp [paths]

theorem ofText_joined_render_nested :
    let is : List Instruction :=
      [{ kind := "MOV", operands := ["Data[i,1]", "F8:0(x,[y])"] }, { kind := "_n2" },
        { kind := "ote", operands := ["[A,B] C"] }]
    (∀ i ∈ is, i.Plain) ∧ ofText "MOV(Data[i,1],F8:0(x,[y])) _n2() ote([A,B] C)" = { before := is } ∧
      (View.ofRung "Main" "R1" { number := 4, text := " \t", instructions := is }).paths = [is] := by
  intro is
  have h : ∀ i ∈ is, i.Plain := by decide +kernel
  obtain ⟨hcircuit, -, hview⟩ := ofText_joined_render h
  exact ⟨h, hcircuit, (hview "Main" "R1" _ (by decide) rfl).2.2⟩

end Circuit

end LadderLogic
