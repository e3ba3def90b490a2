import LadderLogic.Proofs.Instruction.Operand
import LadderLogic.Proofs.Rung.Nesting

/-! Parts that commas can be put between. Whatever the brackets are, every part of a cut but the last one ends
at depth zero, so that the cut is found again. -/
namespace LadderLogic

namespace Text

/-- What trimming drops is blank. -/
theorem exists_blank_append_trimChars (cs : List Char) :
    ∃ a b, cs = a ++ (trimChars cs ++ b) ∧ (∀ c ∈ a, isBlank c) ∧ ∀ c ∈ b, isBlank c := by
  refine ⟨cs.takeWhile isBlank, (cs.dropWhile isBlank).rtakeWhile isBlank, ?_, ?_, ?_⟩
  · rw [trimChars_eq, List.rdropWhile_append_rtakeWhile, List.takeWhile_append_dropWhile]
  · intro c hc
    exact List.mem_takeWhile_imp hc
  · intro c hc
    exact List.mem_rtakeWhile_imp hc

theorem ne_of_isBlank {c d : Char} (h : isBlank c) (hd : isBlank d = false) : c ≠ d := by
  rintro rfl
  rw [hd] at h
  cases h

end Text

namespace Delimited
open Text (trimChars isBlank)

/-- The depth behind a text. -/
def depthBehind (depth : Nat) (cs : List Char) : Nat :=
  cs.foldl depthAfter depth

theorem depthBehind_append (depth : Nat) (a b : List Char) :
    depthBehind depth (a ++ b) = depthBehind (depthBehind depth a) b :=
  List.foldl_append

/-- A text stays whole if it does not start with a comma at depth zero and what follows stays
whole. -/
theorem splitFrom_cons_eq_singleton {depth : Nat} {c : Char} {cs : List Char} :
    splitFrom depth (c :: cs) = [c :: cs] ↔
      ¬(c = ',' ∧ depth = 0) ∧ splitFrom (depthAfter depth c) cs = [cs] := by
  obtain ⟨part, parts, hparts⟩ := List.exists_cons_of_ne_nil (splitFrom_ne_nil (depthAfter depth c) cs)
  by_cases hcomma : c = ',' ∧ depth = 0
  · obtain ⟨rfl, rfl⟩ := hcomma
    simp [splitFrom]
  · have hnot : (c == ',' && depth == 0) = false := by simpa using hcomma
    simp [splitFrom, hnot, hparts, extend, hcomma]

theorem splitFrom_append_eq_singleton {depth : Nat} {a b : List Char} :
    splitFrom depth (a ++ b) = [a ++ b] ↔
      splitFrom depth a = [a] ∧ splitFrom (depthBehind depth a) b = [b] := by
  induction a generalizing depth with
  | nil => simp [splitFrom, depthBehind]
  | cons c a ih =>
    rw [List.cons_append, splitFrom_cons_eq_singleton, splitFrom_cons_eq_singleton, ih, and_assoc]
    rfl

/-- A text that stays whole and ends at depth zero is cut off by the comma behind it. -/
theorem splitFrom_append_comma {depth : Nat} {a : List Char} (hwhole : splitFrom depth a = [a])
    (hdepth : depthBehind depth a = 0) (b : List Char) :
    splitFrom depth (a ++ ',' :: b) = a :: splitFrom 0 b := by
  induction a generalizing depth with
  | nil =>
    obtain rfl : depth = 0 := hdepth
    rfl
  | cons c a ih =>
    obtain ⟨hcomma, hrest⟩ := splitFrom_cons_eq_singleton.1 hwhole
    have hnot : (c == ',' && depth == 0) = false := by simpa using hcomma
    rw [List.cons_append, splitFrom, hnot, ih hrest hdepth]
    rfl

/-- No part has a comma outside its brackets, and a part that stands before another one ends at
depth zero. -/
structure Separable (parts : List (List Char)) : Prop where
  whole : ∀ part ∈ parts, splitTopLevel part = [part]
  closed : parts.Pairwise fun part _ => depthBehind 0 part = 0

namespace Separable

theorem nil : Separable [] :=
  ⟨by simp, .nil⟩

theorem cons {part : List Char} {parts : List (List Char)} (hwhole : splitTopLevel part = [part])
    (hclosed : parts ≠ [] → depthBehind 0 part = 0) (h : Separable parts) : Separable (part :: parts) := by
  refine ⟨List.forall_mem_cons.2 ⟨hwhole, h.whole⟩, List.pairwise_cons.2 ⟨?_, h.closed⟩⟩
  intro other hother
  exact hclosed (List.ne_nil_of_mem hother)

theorem sublist {parts parts' : List (List Char)} (h : Separable parts) (hsub : parts'.Sublist parts) :
    Separable parts' :=
  ⟨fun part hpart => h.whole part (hsub.subset hpart), h.closed.sublist hsub⟩

/-- With commas between them the parts are found again. -/
theorem splitTopLevel_intercalate {parts : List (List Char)} (h : Separable parts) (hne : parts ≠ []) :
    splitTopLevel ([','].intercalate parts) = parts := by
  induction parts with
  | nil => exact absurd rfl hne
  | cons part parts ih =>
    have hpart := h.whole part List.mem_cons_self
    cases parts with
    | nil => rwa [List.intercalate_singleton]
    | cons next parts =>
      have hdepth := (List.pairwise_cons.1 h.closed).1 next List.mem_cons_self
      have hrest := ih (h.sublist (List.sublist_cons_self _ _)) (List.cons_ne_nil _ _)
      rw [List.intercalate_cons_cons, List.append_assoc, List.singleton_append]
      exact (splitFrom_append_comma hpart hdepth _).trans (congrArg (part :: ·) hrest)

end Separable

/-- The first part goes on with a text that has begun before, the others begin at depth zero. -/
theorem separable_splitFrom (depth : Nat) (cs : List Char) :
    ∃ part parts, splitFrom depth cs = part :: parts ∧ splitFrom depth part = [part] ∧
      (parts ≠ [] → depthBehind depth part = 0) ∧ Separable parts := by
  induction cs generalizing depth with
  | nil => exact ⟨[], [], rfl, rfl, fun h => absurd rfl h, .nil⟩
  | cons c cs ih =>
    by_cases hcomma : c = ',' ∧ depth = 0
    · obtain ⟨rfl, rfl⟩ := hcomma
      obtain ⟨part, parts, hsplit, hwhole, hclosed, hparts⟩ := ih 0
      refine ⟨[], part :: parts, ?_, rfl, fun _ => rfl, hparts.cons hwhole hclosed⟩
      rw [← hsplit]
      rfl
    · have hnot : (c == ',' && depth == 0) = false := by simpa using hcomma
      obtain ⟨part, parts, hsplit, hwhole, hclosed, hparts⟩ := ih (depthAfter depth c)
      refine ⟨c :: part, parts, ?_, splitFrom_cons_eq_singleton.2 ⟨hcomma, hwhole⟩, hclosed, hparts⟩
      rw [splitFrom, hnot, hsplit]
      rfl

theorem separable_splitTopLevel (cs : List Char) : Separable (splitTopLevel cs) := by
  obtain ⟨part, parts, hsplit, hwhole, hclosed, hparts⟩ := separable_splitFrom 0 cs
  rw [splitTopLevel, hsplit]
  exact hparts.cons hwhole hclosed

theorem depthBehind_of_unclosed {stack stack' : List Bracket} {cs : List Char}
    (h : Nesting.unclosed stack cs = some stack') : depthBehind stack.length cs = stack'.length := by
  induction cs generalizing stack with
  | nil =>
    cases h
    rfl
  | cons c cs ih =>
    obtain ⟨mid, hstep, hrest⟩ := Nesting.unclosed_cons_eq_some h
    have hbehind := ih hrest
    rwa [← depthAfter_of_step hstep] at hbehind

theorem splitFrom_of_unclosed {stack stack' : List Bracket} {cs : List Char}
    (h : Nesting.unclosed stack cs = some stack')
    (hcomma : ∀ a b, cs = a ++ ',' :: b → Nesting.unclosed stack a ≠ some []) :
    splitFrom stack.length cs = [cs] := by
  induction cs generalizing stack with
  | nil => rfl
  | cons c cs ih =>
    obtain ⟨mid, hstep, hrest⟩ := Nesting.unclosed_cons_eq_some h
    rw [splitFrom_cons_eq_singleton, depthAfter_of_step hstep]
    constructor
    · rintro ⟨rfl, hdepth⟩
      obtain rfl := List.length_eq_zero_iff.1 hdepth
      exact hcomma [] cs rfl rfl
    · refine ih hrest fun a b hab ha => ?_
      exact hcomma (c :: a) b (by rw [hab, List.cons_append]) (by simp [Nesting.unclosed, hstep, ha])

theorem separable_of_wellNested {parts : List (List Char)}
    (h : ∀ part ∈ parts, Nesting.WellNested part ∧ Nesting.NoOuterComma part) : Separable parts := by
  refine ⟨fun part hpart => splitFrom_of_unclosed (h part hpart).1 (h part hpart).2, ?_⟩
  exact List.pairwise_of_forall_mem_list fun part hpart _ _ => depthBehind_of_unclosed (h part hpart).1

/-- The parts of a well-nested text are well nested. The first one goes on with a text that has begun
before. -/
theorem wellNested_splitFrom {stack : List Bracket} {cs : List Char}
    (h : Nesting.unclosed stack cs = some []) :
    ∃ part parts, splitFrom stack.length cs = part :: parts ∧ Nesting.unclosed stack part = some [] ∧
      ∀ other ∈ parts, Nesting.WellNested other := by
  induction cs generalizing stack with
  | nil => exact ⟨[], [], rfl, h, by simp⟩
  | cons c cs ih =>
    obtain ⟨mid, hstep, hrest⟩ := Nesting.unclosed_cons_eq_some h
    obtain ⟨part, parts, hsplit, hpart, hparts⟩ := ih hrest
    by_cases hcomma : c = ',' ∧ stack = []
    · obtain ⟨rfl, rfl⟩ := hcomma
      cases hstep
      refine ⟨[], part :: parts, ?_, rfl, List.forall_mem_cons.2 ⟨hpart, hparts⟩⟩
      rw [← hsplit]
      rfl
    · have hnot : (c == ',' && stack.length == 0) = false := by simpa using hcomma
      refine ⟨c :: part, parts, ?_, by simp [Nesting.unclosed, hstep, hpart], hparts⟩
      rw [splitFrom, hnot, depthAfter_of_step hstep, hsplit]
      rfl

theorem wellNested_of_mem_splitTopLevel {cs part : List Char} (h : Nesting.WellNested cs)
    (hpart : part ∈ splitTopLevel cs) : Nesting.WellNested part := by
  obtain ⟨first, parts, hsplit, hfirst, hparts⟩ := wellNested_splitFrom h
  have hmem : part ∈ first :: parts := hsplit ▸ hpart
  rcases List.mem_cons.1 hmem with rfl | hmem
  · exact hfirst
  · exact hparts part hmem

theorem depthAfter_of_isBlank {c : Char} (h : isBlank c) (depth : Nat) : depthAfter depth c = depth := by
  have h₁ := Text.ne_of_isBlank h (d := '(') rfl
  have h₂ := Text.ne_of_isBlank h (d := '[') rfl
  have h₃ := Text.ne_of_isBlank h (d := ')') rfl
  have h₄ := Text.ne_of_isBlank h (d := ']') rfl
  simp [depthAfter, h₁, h₂, h₃, h₄]

theorem depthBehind_of_isBlank {cs : List Char} (h : ∀ c ∈ cs, isBlank c) (depth : Nat) :
    depthBehind depth cs = depth := by
  induction cs with
  | nil => rfl
  | cons c cs ih =>
    obtain ⟨hc, hcs⟩ := List.forall_mem_cons.1 h
    have hstep : depthBehind depth (c :: cs) = depthBehind (depthAfter depth c) cs := rfl
    rw [hstep, depthAfter_of_isBlank hc, ih hcs]

theorem depthBehind_trimChars (depth : Nat) (cs : List Char) :
    depthBehind depth (trimChars cs) = depthBehind depth cs := by
  obtain ⟨a, b, hcs, ha, hb⟩ := Text.exists_blank_append_trimChars cs
  conv => rhs; rw [hcs, depthBehind_append, depthBehind_append]
  rw [depthBehind_of_isBlank ha, depthBehind_of_isBlank hb]

theorem splitTopLevel_trimChars {cs : List Char} (h : splitTopLevel cs = [cs]) :
    splitTopLevel (trimChars cs) = [trimChars cs] := by
  obtain ⟨a, b, hcs, ha, -⟩ := Text.exists_blank_append_trimChars cs
  rw [splitTopLevel, hcs] at h
  have hrest := (splitFrom_append_eq_singleton.1 h).2
  rw [depthBehind_of_isBlank ha] at hrest
  exact (splitFrom_append_eq_singleton.1 hrest).1

theorem Separable.map_trimChars {parts : List (List Char)} (h : Separable parts) :
    Separable (parts.map trimChars) := by
  constructor
  · intro part hpart
    obtain ⟨part', hmem, rfl⟩ := List.mem_map.1 hpart
    exact splitTopLevel_trimChars (h.whole part' hmem)
  · rw [List.pairwise_map]
    refine h.closed.imp fun hdepth => ?_
    rwa [depthBehind_trimChars]

end Delimited

namespace Call
open Delimited (Separable separable_splitTopLevel)
open Text (trimChars)

/-- The parts between commas that are operands: without blanks around them, and none of them
empty. -/
def operandParts (cs : List Char) : List (List Char) :=
  ((Delimited.splitTopLevel cs).map trimChars).filter fun part => !part.isEmpty

theorem operands_eq_map_operandParts (cs : List Char) :
    operands cs = (operandParts cs).map String.ofList := by
  unfold operands operandParts
  induction (Delimited.splitTopLevel cs).map trimChars with
  | nil => rfl
  | cons part parts ih =>
    rw [List.filterMap_cons, ih]
    cases part <;> rfl

theorem map_toList_operands (cs : List Char) : (operands cs).map String.toList = operandParts cs := by
  simp [operands_eq_map_operandParts]

theorem separable_operandParts (cs : List Char) : Separable (operandParts cs) :=
  (separable_splitTopLevel cs).map_trimChars.sublist List.filter_sublist

theorem trimmed_of_mem_operandParts {cs part : List Char} (h : part ∈ operandParts cs) :
    trimChars part = part ∧ part ≠ [] := by
  obtain ⟨hmem, hne⟩ := List.mem_filter.1 h
  obtain ⟨part', -, rfl⟩ := List.mem_map.1 hmem
  exact ⟨Text.trimChars_trimChars part', by simpa using hne⟩

/-- Trimmed parts that commas can be put between are the operands of the text with the commas. -/
theorem operandParts_intercalate {parts : List (List Char)} (h : Separable parts)
    (htrim : ∀ part ∈ parts, trimChars part = part ∧ part ≠ []) :
    operandParts ([','].intercalate parts) = parts := by
  by_cases hnil : parts = []
  · subst hnil
    rfl
  · have hmap : parts.map trimChars = parts :=
      (List.map_congr_left fun part hpart => (htrim part hpart).1).trans (List.map_id' parts)
    rw [operandParts, h.splitTopLevel_intercalate hnil, hmap, List.filter_eq_self]
    intro part hpart
    simpa using (htrim part hpart).2

end Call

end LadderLogic
