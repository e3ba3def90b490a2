import LadderLogic.Proofs.Rung.Call
import LadderLogic.Proofs.Rung.Separation

/-! The grammar of a rung with a group of branches: a line, a group of legs in square brackets that commas
separate, and the rest. -/
namespace LadderLogic

namespace Nesting

theorem wellNested_intercalate {legs : List (List Char)} (h : ∀ l ∈ legs, WellNested l) :
    WellNested ([','].intercalate legs) := by
  induction legs with
  | nil => rfl
  | cons l legs ih =>
    obtain ⟨hl, hlegs⟩ := List.forall_mem_cons.1 h
    cases legs with
    | nil => rwa [List.intercalate_singleton]
    | cons l' legs =>
      rw [List.intercalate_cons_cons, WellNested, List.append_assoc, unclosed_append, hl]
      exact ih hlegs

end Nesting

open Nesting

theorem Delimited.splitTopLevel_intercalate {legs : List (List Char)} (hne : legs ≠ [])
    (h : ∀ l ∈ legs, WellNested l ∧ NoOuterComma l) : splitTopLevel ([','].intercalate legs) = legs :=
  (separable_of_wellNested h).splitTopLevel_intercalate hne

namespace Circuit

/-- Two legs or more make a group, and so does a single one with a call. -/
theorem isGroup_intercalate {legs : List (List Char)} (h : ∀ l ∈ legs, WellNested l)
    (hlegs : 2 ≤ legs.length ∨ ∃ l, legs = [l] ∧ Call.ContainsCall l) :
    isGroup ([','].intercalate legs) := by
  unfold isGroup
  rcases hlegs with hlen | ⟨l, rfl, hcall⟩
  · obtain ⟨l, l', legs, rfl⟩ : ∃ l l' rest, legs = l :: l' :: rest := by
      match legs, hlen with
      | l :: l' :: rest, _ => exact ⟨l, l', rest, rfl⟩
    rw [List.intercalate_cons_cons, List.append_assoc, Bool.or_eq_true]
    exact Or.inr (hasCommaFrom_append (h l List.mem_cons_self) _)
  · have hall := Call.all_ne_nil_of_containsCall hcall
    simp [List.intercalate_singleton, hall]

/-- The open brackets are those that the place stands for: parentheses with what is inside them, or
an index. -/
def Place.Fits (stack : List Bracket) : Place → Prop
  | .line depth => rounds stack = depth ∧ (stack = [] ∨ stack.getLast? = some .round)
  | .index more => ∃ extra, stack = extra ++ [.square] ∧ squares extra = more

theorem Place.Fits.eq_nil {stack : List Bracket} (h : (Place.line 0).Fits stack) : stack = [] := by
  obtain ⟨hrounds, hnil | hlast⟩ := h
  · exact hnil
  · have hmem : Bracket.round ∈ stack := List.mem_of_getLast? hlast
    exact absurd hmem (List.count_eq_zero.1 hrounds)

theorem splitFrom_index_cons_of_step {stack stack' : List Bracket} {c : Char}
    (h : step stack c = some stack') (cs : List Char) :
    splitFrom (.index (squares stack)) (c :: cs) =
      (splitFrom (.index (squares stack')) cs).map (extend c) := by
  rcases step_cases h with ⟨rfl, rfl⟩ | ⟨rfl, rfl⟩ | ⟨rfl, rfl⟩ | ⟨rfl, rfl⟩ | ⟨⟨-, -, hopen, hclose⟩, rfl⟩
  · simp [splitFrom, squares]
  · simp [splitFrom, squares]
  · simp [splitFrom, squares]
  · simp [splitFrom, squares]
  · simp [splitFrom, hopen, hclose]

/-- On the line, where no index begins, the parentheses are counted. -/
theorem Place.Fits.line_step {stack stack' : List Bracket} {c : Char}
    (h : (Place.line (rounds stack)).Fits stack) (hstep : step stack c = some stack') (hc : c = '[' → stack ≠ []) :
    (Place.line (rounds stack')).Fits stack' := by
  refine ⟨rfl, ?_⟩
  rcases step_cases hstep with ⟨rfl, rfl⟩ | ⟨rfl, rfl⟩ | ⟨rfl, rfl⟩ | ⟨rfl, rfl⟩ | ⟨-, rfl⟩
  · rcases h.2 with rfl | hlast
    · exact Or.inr rfl
    · exact Or.inr (by simp [List.getLast?_cons, hlast])
  · have hlast := h.2.resolve_left (hc rfl)
    exact Or.inr (by simp [List.getLast?_cons, hlast])
  · cases stack' with
    | nil => exact Or.inl rfl
    | cons b stack' => exact Or.inr (h.2.resolve_left (List.cons_ne_nil _ _))
  · cases stack' with
    | nil => exact Or.inl rfl
    | cons b stack' => exact Or.inr (h.2.resolve_left (List.cons_ne_nil _ _))
  · exact h.2

theorem splitFrom_line_cons_of_step {stack stack' : List Bracket} {c : Char}
    (h : step stack c = some stack') (hc : c = '[' → rounds stack ≠ 0) (cs : List Char) :
    splitFrom (.line (rounds stack)) (c :: cs) =
      (splitFrom (.line (rounds stack')) cs).map (extend c) := by
  rcases step_cases h with ⟨rfl, rfl⟩ | ⟨rfl, rfl⟩ | ⟨rfl, rfl⟩ | ⟨rfl, rfl⟩ | ⟨⟨h₁, h₂, h₃, -⟩, rfl⟩
  · simp [splitFrom, rounds]
  · have hdepth := hc rfl
    have hsame : rounds (.square :: stack) = rounds stack := by simp [rounds]
    simp [splitFrom, hdepth, hsame]
  · simp [splitFrom, rounds]
  · simp [splitFrom, rounds]
  · simp [splitFrom, h₁, h₂, h₃]

/-- A well-nested text without a group is passed over, and the group of what follows it is found. -/
theorem splitFrom_append {place : Place} {stack : List Bracket} (hfits : place.Fits stack) {p : List Char}
    (hp : unclosed stack p = some []) (hnone : splitFrom place p = none) (cs : List Char) :
    splitFrom place (p ++ cs) = (split? cs).map fun x => { x with before := p ++ x.before } := by
  induction p generalizing place stack with
  | nil =>
    cases hp
    cases place with
    | line depth =>
      obtain ⟨rfl, -⟩ := hfits
      simp [split?]
    | index more =>
      obtain ⟨extra, hextra, -⟩ := hfits
      simp at hextra
  | cons c p ih =>
    obtain ⟨mid, hstep, hrest⟩ := unclosed_cons_eq_some hp
    have hon : ∀ place' : Place, place'.Fits mid →
        splitFrom place (c :: p) = (splitFrom place' p).map (extend c) →
        splitFrom place (c :: (p ++ cs)) = (splitFrom place' (p ++ cs)).map (extend c) →
        splitFrom place (c :: (p ++ cs)) =
          (split? cs).map fun x => { x with before := c :: p ++ x.before } := by
      intro place' hfits' hp' hcs
      rw [hp', Option.map_eq_none_iff] at hnone
      rw [hcs, ih hfits' hrest hnone, Option.map_map]
      rfl
    cases place with
    | index more =>
      obtain ⟨extra, rfl, rfl⟩ := hfits
      rcases step_append hstep with ⟨extra', hextra, rfl⟩ | ⟨rfl, ⟨-, hbase⟩ | ⟨rfl, hbase⟩⟩
      · exact hon (.index (squares extra')) ⟨extra', rfl, rfl⟩ (splitFrom_index_cons_of_step hextra p)
          (splitFrom_index_cons_of_step hextra (p ++ cs))
      · cases hbase
      · cases hbase
        exact hon (.line 0) ⟨rfl, Or.inl rfl⟩ rfl rfl
    | line depth =>
      obtain rfl := hfits.1
      by_cases hindex : c = '[' ∧ rounds stack = 0
      · -- The bracket is closed in the text, and what it holds is no group.
        obtain ⟨rfl, hdepth⟩ := hindex
        rw [hdepth] at hfits hnone hon ⊢
        obtain rfl := hfits.eq_nil
        cases hstep
        cases hclosing : Delimited.closing '[' ']' 0 p with
        | none =>
          obtain ⟨extra, -, hstack⟩ := Delimited.unclosed_of_closing_eq_none (squares_nil ▸ hclosing) hrest
          simp at hstack
        | some found =>
          obtain ⟨inner, rest⟩ := found
          have hclosing' := Delimited.closing_append_of_eq_some hclosing cs
          have hgroup : ¬isGroup inner := by
            intro hgroup
            simp [splitFrom, hclosing, hgroup] at hnone
          refine hon (.index 0) ⟨[], rfl, rfl⟩ ?_ ?_
          · simp [splitFrom, hclosing, hgroup]
          · simp [splitFrom, hclosing', hgroup]
      · have hc : c = '[' → rounds stack ≠ 0 := fun hc hdepth => hindex ⟨hc, hdepth⟩
        have hne : c = '[' → stack ≠ [] := fun hc' hnil => hc hc' (by rw [hnil]; rfl)
        exact hon _ (hfits.line_step hstep hne) (splitFrom_line_cons_of_step hstep hc p)
          (splitFrom_line_cons_of_step hstep hc (p ++ cs))

theorem split?_append_group {p inner : List Char} (hp : WellNested p) (hnone : split? p = none)
    (hinner : WellNested inner) (hgroup : isGroup inner) (rest : List Char) :
    split? (p ++ '[' :: (inner ++ ']' :: rest)) = some ⟨p, inner, rest⟩ := by
  have hclosing : Delimited.closing '[' ']' 0 (inner ++ ']' :: rest) = some (inner, rest) := by
    have happend := Delimited.closing_append hinner (']' :: rest)
    simpa [Delimited.closing] using happend
  have hstart : (Place.line 0).Fits [] := ⟨rfl, Or.inl rfl⟩
  rw [split?, splitFrom_append hstart hp hnone]
  simp [split?, splitFrom, hclosing, hgroup]

theorem split?_eq_none_of_isLinear {cs : List Char} (h : (ofChars cs).isLinear) : split? cs = none := by
  cases hsplit : split? cs with
  | none => rfl
  | some x =>
    have hne : Delimited.splitTopLevel x.group ≠ [] := Delimited.splitFrom_ne_nil 0 x.group
    simp [ofChars, isLinear, hsplit, hne] at h

theorem map_branch_zipIdx (legs : List String) :
    ((legs.map String.toList).zipIdx.map fun (part, index) => branch part index) =
      legs.mapIdx fun i l =>
        { index := i, text := Text.trim l, instructions := Instruction.allIn l.toList } := by
  rw [List.mapIdx_eq_zipIdx_map, List.zipIdx_map, List.map_map]
  rfl

/-- A well-nested line without a group, then legs between square brackets and commas, then any text:
the line and the text behind the group are the shared parts of the circuit, and each leg is a branch
of it. A single leg needs a call, so that its brackets are no index. -/
theorem ofText_group {p : String} {legs : List String} (hp : WellNested p.toList)
    (hlinear : (ofText p).isLinear)
    (hlegs : ∀ l ∈ legs, WellNested l.toList ∧ NoOuterComma l.toList)
    (hgroup : 2 ≤ legs.length ∨ ∃ l, legs = [l] ∧ Call.ContainsCall l.toList) (s : String) :
    ofText (p ++ "[" ++ ",".intercalate legs ++ "]" ++ s) =
      { before := Instruction.allIn p.toList
        branches := legs.mapIdx fun i l =>
          { index := i, text := Text.trim l, instructions := Instruction.allIn l.toList }
        after := Instruction.allIn s.toList } := by
  have hparts : ∀ l ∈ legs.map String.toList, WellNested l ∧ NoOuterComma l := by
    simpa using hlegs
  have hnested : ∀ l ∈ legs.map String.toList, WellNested l := fun l hl => (hparts l hl).1
  have hisGroup : isGroup ([','].intercalate (legs.map String.toList)) := by
    apply isGroup_intercalate hnested
    rcases hgroup with hlen | ⟨l, rfl, hcall⟩
    · exact Or.inl (by simpa using hlen)
    · exact Or.inr ⟨l.toList, rfl, hcall⟩
  have hne : legs.map String.toList ≠ [] := by
    rcases hgroup with hlen | ⟨l, rfl, -⟩
    · intro hnil
      rw [List.map_eq_nil_iff.1 hnil] at hlen
      simp at hlen
    · simp
  have htext : (p ++ "[" ++ ",".intercalate legs ++ "]" ++ s).toList =
      p.toList ++ '[' :: ([','].intercalate (legs.map String.toList) ++ ']' :: s.toList) := by
    simp [String.toList_intercalate]
  have hsplit := split?_append_group hp (split?_eq_none_of_isLinear hlinear)
    (wellNested_intercalate hnested) hisGroup s.toList
  unfold ofText ofChars
  rw [htext, hsplit]
  simp only [Delimited.splitTopLevel_intercalate hne hparts, map_branch_zipIdx]

theorem ofText_group_nested :
    let legs := ["XIC(B) [OTE(C),OTE(D)]", " RES(T[1,2])"]
    (WellNested "XIC(A[1]) Data[3] ".toList ∧ ∀ l ∈ legs, WellNested l.toList ∧ NoOuterComma l.toList) ∧
      (ofText ("XIC(A[1]) Data[3] " ++ "[" ++ ",".intercalate legs ++ "]" ++
        ")]XIO(E),[((")).branches.map (·.text) = ["XIC(B) [OTE(C),OTE(D)]", "RES(T[1,2])"] := by
  intro legs
  have hp : WellNested "XIC(A[1]) Data[3] ".toList := by decide +kernel
  have hlegs : ∀ l ∈ legs, WellNested l.toList ∧ NoOuterComma l.toList := by decide +kernel
  refine ⟨⟨hp, hlegs⟩, ?_⟩
  rw [ofText_group hp (by decide +kernel) hlegs (Or.inl (by decide))]
  decide +kernel

end Circuit

end LadderLogic
