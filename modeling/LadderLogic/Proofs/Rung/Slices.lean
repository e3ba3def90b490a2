import LadderLogic.Proofs.Rung.Positions.Group
import LadderLogic.Proofs.Rung.Separation
import Mathlib.Data.List.Forall2

/-! The circuit of a rung from slices of its text. Every cut falls between two characters, so that no slice can
fail. -/
namespace LadderLogic
open Text

theorem mapM_eq_some_of_forall₂ {f : α → Option γ} {g : β → γ} {xs : List α} {ys : List β}
    (h : List.Forall₂ (fun x y => f x = some (g y)) xs ys) : xs.mapM f = some (ys.map g) := by
  induction h with
  | nil => rfl
  | cons hhead _ ih => simp [hhead, ih]

theorem exists_mapM_eq_some {f : α → Option β} {xs : List α} (h : ∀ x ∈ xs, ∃ y, f x = some y) :
    ∃ ys, xs.mapM f = some ys := by
  induction xs with
  | nil => exact ⟨[], rfl⟩
  | cons x xs ih =>
    obtain ⟨⟨y, hy⟩, hxs⟩ := List.forall_mem_cons.1 h
    obtain ⟨ys, hys⟩ := ih hxs
    exact ⟨y :: ys, by simp [hy, hys]⟩

/-- The parts between the outer commas, cut out of a text. -/
def Delimited.slices? (text : String) : Option (List String) :=
  (cuts (bytes text)).mapM (slice? text)

theorem Delimited.slices?_eq (text : String) :
    slices? text = some ((splitTopLevel text.toList).map String.ofList) :=
  mapM_eq_some_of_forall₂ (slice?_cuts text)

namespace Call

/-- The instruction of a call, from the parts that are cut out of a text. -/
def Cut.instruction? (text : String) (cut : Cut) : Option Instruction := do
  let kind ← slice? text cut.name
  let parts ← Delimited.slices? (← slice? text cut.body)
  return { kind, operands := (parts.map trim).filter (· != "") }

/-- The instructions of a text, from the parts that are cut out of it. -/
def slices? (text : String) : Option (List Instruction) :=
  (cuts (bytes text)).mapM (Cut.instruction? text)

theorem operands_eq_filter (cs : List Char) :
    operands cs = (((Delimited.splitTopLevel cs).map String.ofList).map trim).filter (· != "") := by
  have htrim : trim ∘ String.ofList = String.ofList ∘ trimChars := by
    funext part
    simp [trim]
  have hempty : (· != "") ∘ String.ofList = fun part => !part.isEmpty := by
    funext part
    cases part <;> simp [bne]
  rw [List.map_map, htrim, ← List.map_map, List.filter_map, hempty, ← operandParts, operands_eq_map_operandParts]

theorem Cut.CutsOut.instruction?_eq {text : String} {cut : Cut} {call : Call} (h : cut.CutsOut text call) :
    cut.instruction? text = some call.toInstruction := by
  obtain ⟨hname, hbody⟩ := h
  simp [Cut.instruction?, hname, hbody, Delimited.slices?_eq, toInstruction, operands_eq_filter]

theorem slices?_eq (text : String) : slices? text = some (Instruction.allIn text.toList) :=
  mapM_eq_some_of_forall₂ ((cutsOut_cuts text).imp fun _ _ => Cut.CutsOut.instruction?_eq)

end Call

namespace Circuit

/-- A branch, from its part of the text. -/
def branchOfSlice? (part : String) (index : Nat) : Option Branch := do
  return { index, text := trim part, instructions := ← Call.slices? part }

/-- The circuit of a text, from the parts that are cut out of it. -/
def ofSlices? (text : String) : Option Circuit := do
  let _ ← (looked (bytes text)).mapM fun g => slice? text (g.inner text.utf8ByteSize)
  match brackets? (bytes text) with
  | none => return { before := ← Call.slices? text }
  | some g =>
    let inner ← slice? text (g.inner text.utf8ByteSize)
    let after ← (g.after? text.utf8ByteSize).elim (some "") (slice? text)
    let branches ← (← Delimited.slices? inner).zipIdx.mapM fun (part, index) => branchOfSlice? part index
    let before ← slice? text g.before
    return { before := ← Call.slices? before, branches, after := ← Call.slices? after }

theorem branchOfSlice?_ofList (part : List Char) (index : Nat) :
    branchOfSlice? (String.ofList part) index = some (branch part index) := by
  simp [branchOfSlice?, Call.slices?_eq, branch, trim]

theorem mapM_branchOfSlice? (parts : List (List Char)) :
    ((parts.map String.ofList).zipIdx.mapM fun (part, index) => branchOfSlice? part index) =
      some (parts.zipIdx.map fun (part, index) => branch part index) := by
  refine mapM_eq_some_of_forall₂ ?_
  rw [List.zipIdx_map, List.forall₂_map_left_iff, List.forall₂_same]
  exact fun (part, index) _ => branchOfSlice?_ofList part index

theorem Brackets.Splits.slices {text : String} {g : Brackets} {x : Split} (h : g.Splits text.toList x) :
    slice? text g.before = some (String.ofList x.before) ∧
      slice? text (g.inner text.utf8ByteSize) = some (String.ofList x.group) ∧
      (g.after? text.utf8ByteSize).elim (some "") (slice? text) = some (String.ofList x.after) := by
  have hslices := And.intro h.slice?_before (And.intro h.slice?_inner h.slice?_after)
  rwa [String.ofList_toList, ← utf8ByteSize_eq] at hslices

theorem exists_slice?_of_mem_looked {text : String} {g : Brackets} (h : g ∈ looked (bytes text)) :
    ∃ part, slice? text (g.inner text.utf8ByteSize) = some part := by
  obtain ⟨x, hsplits⟩ := (finds_looked text).1 g h
  exact ⟨_, hsplits.slices.2.1⟩

/-- The brackets of the group are those around which the text is split. -/
theorem rel_brackets? (text : String) :
    Option.Rel (·.Splits text.toList ·) (brackets? (bytes text)) (split? text.toList) := by
  have hgroup := (finds_looked text).2
  rwa [List.nil_append, ← bytes_eq] at hgroup

/-- The parts of a text that are cut out by positions make up its circuit. -/
theorem ofSlices?_eq (text : String) : ofSlices? text = some (ofText text) := by
  have hlooked : ∀ g ∈ looked (bytes text), ∃ part, slice? text (g.inner text.utf8ByteSize) = some part :=
    fun _ => exists_slice?_of_mem_looked
  obtain ⟨inners, hinners⟩ := exists_mapM_eq_some hlooked
  have hgroup := rel_brackets? text
  rw [ofSlices?, ofText, ofChars, hinners]
  generalize brackets? (bytes text) = found at hgroup ⊢
  generalize split? text.toList = x at hgroup ⊢
  cases hgroup with
  | none => simp [Call.slices?_eq]
  | some hsplits =>
    obtain ⟨hbefore, hinner, hafter⟩ := hsplits.slices
    simp [hbefore, hinner, hafter, Call.slices?_eq, Delimited.slices?_eq, mapM_branchOfSlice?]

theorem fits_of_mem_brackets? {text : String} {g : Brackets} (h : g ∈ brackets? (bytes text)) :
    g.before.Fits text ∧ (g.inner text.utf8ByteSize).Fits text ∧
      ∀ r ∈ g.after? text.utf8ByteSize, r.Fits text := by
  have hgroup := rel_brackets? text
  rw [Option.mem_def.1 h] at hgroup
  generalize split? text.toList = x at hgroup
  cases hgroup with
  | some hsplits =>
    obtain ⟨hbefore, hinner, hafter⟩ := hsplits.slices
    refine ⟨fits_of_slice? hbefore, fits_of_slice? hinner, fun r hr => ?_⟩
    rw [Option.mem_def.1 hr] at hafter
    exact fits_of_slice? hafter

/-- Whatever characters a text has and however its brackets stand to each other, every range that is
cut out of it lies within it and begins and ends between two characters, the searches for calls and for
the group never go back or stay where they are, and the parts that are cut out make up what the text
describes. -/
theorem slices_fit_text (text : String) :
    (∀ r ∈ Delimited.cuts (bytes text), r.Fits text) ∧
      (∀ cut ∈ Call.cuts (bytes text), cut.name.Fits text ∧ cut.body.Fits text) ∧
      (∀ g ∈ looked (bytes text), (g.inner text.utf8ByteSize).Fits text) ∧
      (∀ g ∈ brackets? (bytes text), g.before.Fits text ∧ (g.inner text.utf8ByteSize).Fits text ∧
        ∀ r ∈ g.after? text.utf8ByteSize, r.Fits text) ∧
      (∀ pos cut next, Call.cut? (bytes text) pos = some cut → cut.next = some next →
        pos < next ∧ next ≤ (bytes text).length) ∧
      (∀ depth pos step depth' pos', step? (bytes text) depth pos = some step →
        step.next = some (depth', pos') → pos < pos' ∧ pos' ≤ (bytes text).length) ∧
      Delimited.slices? text = some ((Delimited.splitTopLevel text.toList).map String.ofList) ∧
      Call.slices? text = some (Instruction.allIn text.toList) ∧
      ofSlices? text = some (ofText text) := by
  refine ⟨?_, ?_, ?_, fun _ => fits_of_mem_brackets?, fun _ _ _ => Call.lt_next_of_cut?,
    fun _ _ _ _ _ => lt_next_of_step?, Delimited.slices?_eq text, Call.slices?_eq text, ofSlices?_eq text⟩
  · have hfits := (Delimited.slice?_cuts text).imp fun r part hpart => And.intro (fits_of_slice? hpart) hpart
    exact ((List.forall₂_and_left _ _).1 hfits).1
  · have hfits := (Call.cutsOut_cuts text).imp fun cut call hcut =>
      And.intro (And.intro (fits_of_slice? hcut.1) (fits_of_slice? hcut.2)) hcut
    exact ((List.forall₂_and_left _ _).1 hfits).1
  · intro g hg
    obtain ⟨part, hpart⟩ := exists_slice?_of_mem_looked hg
    exact fits_of_slice? hpart

/-- Both the group and the call in it are not closed, and the bytes from 7 to 9 are one character. -/
theorem slices_fit_text_unclosed :
    Call.cuts (bytes "é[OTE(日,😀") = [⟨⟨3, 6⟩, ⟨7, 15⟩, none⟩] ∧
      looked (bytes "é[OTE(日,😀") = [⟨2, none⟩] ∧ Delimited.cuts (bytes "日,😀") = [⟨0, 3⟩, ⟨4, 8⟩] ∧
      Range.Fits "é[OTE(日,😀" ⟨3, 6⟩ ∧ Range.Fits "é[OTE(日,😀" ⟨7, 15⟩ ∧ ¬Range.Fits "é[OTE(日,😀" ⟨8, 15⟩ := by
  have hcuts : Call.cuts (bytes "é[OTE(日,😀") = [⟨⟨3, 6⟩, ⟨7, 15⟩, none⟩] := by decide +kernel
  obtain ⟨hname, hbody⟩ := (slices_fit_text "é[OTE(日,😀").2.1 _ (hcuts ▸ List.mem_singleton_self _)
  exact ⟨hcuts, by decide +kernel, by decide +kernel, hname, hbody, by decide +kernel⟩

end Circuit

end LadderLogic
