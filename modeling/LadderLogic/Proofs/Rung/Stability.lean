import LadderLogic.Proofs.Rung.Grammar
import LadderLogic.Proofs.Rung.Malformed
import LadderLogic.Proofs.Rung.Render

/-! Instructions that are read, written and read again. The parentheses of a call are those that its body had,
so that the call ends where it is meant to. A call that was never closed gains a parenthesis and is left out. -/
namespace LadderLogic

namespace Call
open Text (trimChars isBlank)

/-- The parentheses of a text, without what stands between them. -/
def parentheses (cs : List Char) : List Char :=
  cs.filter fun c => c == '(' || c == ')'

theorem parentheses_append (a b : List Char) : parentheses (a ++ b) = parentheses a ++ parentheses b :=
  List.filter_append a b

theorem parentheses_of_isBlank {cs : List Char} (h : ∀ c ∈ cs, isBlank c) : parentheses cs = [] := by
  rw [parentheses, List.filter_eq_nil_iff]
  intro c hc
  have h₁ := Text.ne_of_isBlank (h c hc) (d := '(') rfl
  have h₂ := Text.ne_of_isBlank (h c hc) (d := ')') rfl
  simp [h₁, h₂]

theorem parentheses_trimChars (cs : List Char) : parentheses (trimChars cs) = parentheses cs := by
  obtain ⟨a, b, hcs, ha, hb⟩ := Text.exists_blank_append_trimChars cs
  conv => rhs; rw [hcs, parentheses_append, parentheses_append]
  rw [parentheses_of_isBlank ha, parentheses_of_isBlank hb, List.nil_append, List.append_nil]

theorem parentheses_intercalate (parts : List (List Char)) :
    parentheses ([','].intercalate parts) = parts.flatMap parentheses := by
  induction parts with
  | nil => rfl
  | cons part parts ih =>
    cases parts with
    | nil => simp
    | cons next parts =>
      rw [List.intercalate_cons_cons, parentheses_append, parentheses_append, ih]
      simp [parentheses]

/-- The operands have the parentheses of the text. -/
theorem parentheses_operandParts (cs : List Char) :
    parentheses ([','].intercalate (operandParts cs)) = parentheses cs := by
  have hparts : ∀ parts : List (List Char),
      ((parts.map trimChars).filter fun part => !part.isEmpty).flatMap parentheses =
        parts.flatMap parentheses := by
    intro parts
    induction parts with
    | nil => rfl
    | cons part parts ih =>
      rw [List.flatMap_cons, ← ih, ← parentheses_trimChars part, List.map_cons]
      cases trimChars part <;> rfl
  rw [parentheses_intercalate, operandParts, hparts, ← parentheses_intercalate,
    Delimited.intercalate_splitTopLevel]

theorem count_parentheses {c : Char} (h : c = '(' ∨ c = ')') (cs : List Char) :
    (parentheses cs).count c = cs.count c := by
  rw [parentheses, List.count_filter]
  rcases h with rfl | rfl <;> rfl

/-- Whether a call is closed depends on the parentheses alone. -/
theorem IsOpen.of_parentheses_eq {cs cs' : List Char} (h : IsOpen cs) (heq : parentheses cs' = parentheses cs) :
    IsOpen cs' := by
  intro a ha
  have hprefix : parentheses a <+: parentheses cs := heq ▸ ha.filter _
  obtain ⟨a', ha', hsame⟩ := List.prefix_filter_iff.1 hprefix
  have hle := h a' ha'
  rwa [← count_parentheses (.inl rfl) a', ← count_parentheses (.inr rfl) a', parentheses, ← hsame,
    count_parentheses (.inl rfl), count_parentheses (.inr rfl)] at hle

theorem Balanced.of_parentheses_eq {cs cs' : List Char} (h : Balanced cs)
    (heq : parentheses cs' = parentheses cs) : Balanced cs' := by
  refine ⟨h.1.of_parentheses_eq heq, ?_⟩
  rw [← count_parentheses (.inr rfl) cs', ← count_parentheses (.inl rfl) cs', heq,
    count_parentheses (.inr rfl), count_parentheses (.inl rfl)]
  exact h.2

theorem operands_intercalate_operandParts (cs : List Char) :
    operands ([','].intercalate (operandParts cs)) = operands cs := by
  have hparts := operandParts_intercalate (separable_operandParts cs) fun _ h => trimmed_of_mem_operandParts h
  rw [operands_eq_map_operandParts, hparts, operands_eq_map_operandParts]

/-- The call as text. -/
def text (c : Call) : List Char :=
  c.name ++ '(' :: (c.body ++ [')'])

theorem all_text_append {c : Call} (hname : IsName c.name) (hbody : Balanced c.body) (rest : List Char) :
    all (c.text ++ rest) = c :: all rest := by
  obtain ⟨hopen, hcount⟩ := hbody
  have hmore : c.body.count '(' - c.body.count ')' = 0 := by omega
  have htext : c.text ++ rest = c.name ++ '(' :: (c.body ++ ')' :: rest) := by simp [text]
  rw [htext, all, scan_name hname, scan_inside_of_isOpen hopen, hmore]
  rfl

/-- Calls with blanks between them are found again. -/
theorem all_intercalate_text {calls : List Call} (h : ∀ c ∈ calls, IsName c.name ∧ Balanced c.body) :
    all ([' '].intercalate (calls.map text)) = calls := by
  induction calls with
  | nil => rfl
  | cons c calls ih =>
    obtain ⟨⟨hname, hbody⟩, hcalls⟩ := List.forall_mem_cons.1 h
    obtain ⟨tail, htext, hall, -⟩ := Circuit.exists_tail_intercalate c.text (calls.map text)
    rw [List.map_cons, htext, all_text_append hname hbody, hall, ih hcalls]

/-- The call with its operands alone between the parentheses. -/
def rewritten (c : Call) : Call :=
  ⟨c.name, [','].intercalate (operandParts c.body)⟩

theorem toList_render_toInstruction (c : Call) : c.toInstruction.render.toList = c.rewritten.text := by
  rw [Instruction.toList_render, toInstruction, String.toList_ofList, map_toList_operands]
  rfl

theorem toInstruction_rewritten (c : Call) : c.rewritten.toInstruction = c.toInstruction := by
  rw [toInstruction, rewritten, operands_intercalate_operandParts]
  rfl

theorem Layout.Opens.isName {gap name : List Char} (h : Opens gap name) : IsName name := by
  have hrun : ∀ c ∈ name, isNameChar c := by
    intro c hc
    rw [← h.nameBefore_eq] at hc
    exact List.mem_rtakeWhile_imp ((List.dropWhile_sublist _).subset hc)
  cases name with
  | nil => exact absurd rfl h.nonempty
  | cons c cs =>
    obtain ⟨hc, hcs⟩ := List.forall_mem_cons.1 hrun
    have hdigit : c.isDigit = false := by
      have hhead := List.head?_dropWhile_not Char.isDigit (runBefore (gap ++ c :: cs))
      rw [← nameBefore, h.nameBefore_eq] at hhead
      simpa using hhead
    rw [isNameChar_eq, hdigit, Bool.or_false] at hc
    exact ⟨hc, hcs⟩

/-- Every call is closed. -/
def Layout.AllClosed : Layout → Prop
  | .stop _ => True
  | .unclosed _ _ _ => False
  | .call _ _ _ rest => rest.AllClosed

theorem Layout.Valid.of_mem_calls {l : Layout} (h : l.Valid) (hclosed : l.AllClosed) :
    ∀ c ∈ l.calls, IsName c.name ∧ Balanced c.body := by
  induction l with
  | stop gap => simp [calls]
  | unclosed gap name body => cases hclosed
  | call gap name body rest ih =>
    obtain ⟨hopens, hbody, hrest⟩ := h
    exact List.forall_mem_cons.2 ⟨⟨hopens.isName, hbody⟩, ih hrest hclosed⟩

/-- A parenthesis closes each call of the text. -/
def EachClosed (cs : List Char) : Prop :=
  ∃ l : Layout, l.Valid ∧ l.text = cs ∧ l.AllClosed

end Call

open Call

theorem Text.toList_joined_render (calls : List Call) :
    (joined " " ((calls.map toInstruction).map Instruction.render)).toList =
      [' '].intercalate ((calls.map rewritten).map text) := by
  rw [toList_joined, List.map_map, List.map_map, List.map_map]
  exact congrArg _ (List.map_congr_left fun c _ => toList_render_toInstruction c)

/-- Operands that are written with commas between them are the same operands again. Where each call of
a text is closed, the instructions of the text, written with blanks between them, are the same
instructions again. Neither needs square brackets that match. -/
theorem Instruction.allIn_joined_render_allIn :
    (∀ s : String, Call.operands (Text.joined "," (Call.operands s.toList)).toList = Call.operands s.toList) ∧
      ∀ s : String, EachClosed s.toList →
        allIn (Text.joined " " ((allIn s.toList).map render)).toList = allIn s.toList := by
  constructor
  · intro s
    have htext : (Text.joined "," (Call.operands s.toList)).toList = [','].intercalate (operandParts s.toList) := by
      rw [Text.toList_joined, map_toList_operands]
      rfl
    rw [htext, operands_intercalate_operandParts]
  · rintro s ⟨l, hvalid, htext, hclosed⟩
    have hcalls : ∀ c ∈ l.calls.map rewritten, IsName c.name ∧ Balanced c.body := by
      intro c hc
      obtain ⟨c', hc', rfl⟩ := List.mem_map.1 hc
      obtain ⟨hname, hbody⟩ := hvalid.of_mem_calls hclosed c' hc'
      exact ⟨hname, hbody.of_parentheses_eq (parentheses_operandParts c'.body)⟩
    have hsame : (l.calls.map rewritten).map toInstruction = l.calls.map toInstruction := by
      rw [List.map_map]
      exact List.map_congr_left fun c _ => toInstruction_rewritten c
    have hread : allIn s.toList = l.calls.map toInstruction := by
      rw [allIn, ← htext, hvalid.all_text]
    rw [hread, Text.toList_joined_render, allIn, all_intercalate_text hcalls, hsame]

theorem Instruction.allIn_joined_render_allIn_unmatched :
    let s := "MOV( A[(B]) ,, C]D , ) 7) 12x9(E [F) XIC()"
    EachClosed s.toList ∧ allIn "MOV(A[(B]),C]D) x9(E [F) XIC()".toList = allIn s.toList := by
  intro s
  let l : Layout := .call [] "MOV".toList " A[(B]) ,, C]D , ".toList
    (.call " 7) 12".toList "x9".toList "E [F".toList (.call [' '] "XIC".toList [] (.stop [])))
  have hclosed : EachClosed s.toList := ⟨l, by decide +kernel, by decide +kernel, trivial⟩
  have hrendered : Text.joined " " ((allIn s.toList).map render) = "MOV(A[(B]),C]D) x9(E [F) XIC()" := by
    decide +kernel
  have hagain := allIn_joined_render_allIn.2 s hclosed
  rw [hrendered] at hagain
  exact ⟨hclosed, hagain⟩

-- A call that is not closed gains a parenthesis, and here its operand takes it.
example : (Instruction.allIn "XIC(A(B".toList).map Instruction.render = ["XIC(A(B)"] ∧
    Instruction.allIn "XIC(A(B)".toList ≠ Instruction.allIn "XIC(A(B".toList := by
  decide +kernel

end LadderLogic
