import LadderLogic.Proofs.Rung.Call

/-! The circuit of a rung against its text. No cut goes through a call if the closing brackets match. -/
namespace LadderLogic.Circuit
open Nesting Delimited

/-- On the line, a bracket begins the group or an index, or the character only counts as a
parenthesis. -/
theorem splitFrom_line_cons {depth : Nat} {c : Char} {cs : List Char} {x : Split}
    (h : splitFrom (.line depth) (c :: cs) = some x) :
    (c = '[' ∧ depth = 0 ∧ x.before = [] ∧
        (closing '[' ']' 0 cs = some (x.group, x.after) ∨
          closing '[' ']' 0 cs = none ∧ x.group = cs ∧ x.after = [])) ∨
      (c = '[' ∧ depth = 0 ∧ (∃ inner rest, closing '[' ']' 0 cs = some (inner, rest) ∧ ¬isGroup inner) ∧
        ∃ y, splitFrom (.index 0) cs = some y ∧ extend c y = x) ∨
      (c = '[' → depth ≠ 0) ∧
        ∃ y, splitFrom (.line (if c == '(' then depth + 1 else if c == ')' then depth - 1 else depth)) cs =
          some y ∧ extend c y = x := by
  simp only [splitFrom] at h
  split at h
  · next hopen =>
    obtain rfl := eq_of_beq hopen
    exact Or.inr (Or.inr ⟨by simp, by simpa using h⟩)
  · next hopen =>
    split at h
    · next hclose =>
      obtain rfl := eq_of_beq hclose
      exact Or.inr (Or.inr ⟨by simp, by simpa using h⟩)
    · next hclose =>
      split at h
      · next hc =>
        obtain ⟨hc, hdepth⟩ := Bool.and_eq_true_iff.1 hc
        obtain rfl := eq_of_beq hc
        obtain rfl := eq_of_beq hdepth
        split at h
        · next inner rest hclosing =>
          split at h
          · cases h
            exact Or.inl ⟨rfl, rfl, rfl, Or.inl hclosing⟩
          · next hindex =>
            exact Or.inr (Or.inl ⟨rfl, rfl, ⟨inner, rest, hclosing, hindex⟩, Option.map_eq_some_iff.1 h⟩)
        · next hclosing =>
          split at h
          · cases h
            exact Or.inl ⟨rfl, rfl, rfl, Or.inr ⟨hclosing, rfl, rfl⟩⟩
          · cases h
      · next hc =>
        have hdepth : c = '[' → depth ≠ 0 := by simpa using hc
        exact Or.inr (Or.inr ⟨hdepth, by simpa [hopen, hclose] using h⟩)

/-- An index ends at the bracket that closes it. Before that its characters are those that the
search for this bracket passes over. -/
theorem splitFrom_index_cons {more : Nat} {c : Char} {cs : List Char} {x : Split}
    (h : splitFrom (.index more) (c :: cs) = some x) :
    (c = ']' ∧ more = 0 ∧ ∃ y, splitFrom (.line 0) cs = some y ∧ extend c y = x) ∨
      ∃ more', closing '[' ']' more (c :: cs) =
          (closing '[' ']' more' cs).map (fun (inner, rest) => (c :: inner, rest)) ∧
        ∃ y, splitFrom (.index more') cs = some y ∧ extend c y = x := by
  simp only [splitFrom] at h
  split at h
  · next hopen => exact Or.inr ⟨more + 1, by simp [closing, hopen], Option.map_eq_some_iff.1 h⟩
  · next hopen =>
    split at h
    · next hclose =>
      cases more with
      | zero => exact Or.inl ⟨eq_of_beq hclose, rfl, Option.map_eq_some_iff.1 h⟩
      | succ more => exact Or.inr ⟨more, by simp [closing, hopen, hclose], Option.map_eq_some_iff.1 h⟩
    · next hclose => exact Or.inr ⟨more, by simp [closing, hopen, hclose], Option.map_eq_some_iff.1 h⟩

/-- Nothing is open at a place but what the place says, when the search for calls has come to it in
state `s`: as many parentheses as it counts, or an index that holds no call. -/
def Place.Clear (s : Call.Scan) (cs : List Char) : Place → Prop
  | .line depth => s.opens ≤ depth
  | .index more => ∃ inner rest, closing '[' ']' more cs = some (inner, rest) ∧ Call.scan s inner = []

/-- The group starts at a bracket that the search for calls meets outside calls, and it ends at the
bracket that closes this one or at the end of the text. -/
def Split.Cuts (x : Split) (s : Call.Scan) (cs : List Char) : Prop :=
  ∃ rest, cs = x.before ++ '[' :: rest ∧ (s.after x.before).opens = 0 ∧
    (closing '[' ']' 0 rest = some (x.group, x.after) ∨
      closing '[' ']' 0 rest = none ∧ x.group = rest ∧ x.after = [])

theorem Split.Cuts.extend {x : Split} {s : Call.Scan} {c : Char} {cs : List Char}
    (h : x.Cuts (s.next c) cs) : (extend c x).Cuts s (c :: cs) := by
  obtain ⟨rest, hcs, hopens, hgroup⟩ := h
  exact ⟨rest, by rw [hcs]; rfl, hopens, hgroup⟩

theorem all_eq_nil_of_not_isGroup {cs : List Char} (h : ¬isGroup cs) : Call.all cs = [] := by
  simp only [isGroup, Bool.or_eq_true, not_or, Bool.not_eq_true', Bool.not_eq_false] at h
  exact List.isEmpty_iff.1 h.1

theorem cuts_of_splitFrom {place : Place} {cs : List Char} {x : Split} (h : splitFrom place cs = some x)
    {s : Call.Scan} (hclear : place.Clear s cs) : x.Cuts s cs := by
  induction cs generalizing place s x with
  | nil => cases place <;> cases h
  | cons c cs ih =>
    cases place with
    | line depth =>
      rcases splitFrom_line_cons h with
        ⟨rfl, rfl, hbefore, hgroup⟩ | ⟨rfl, rfl, ⟨inner, rest, hclosing, hindex⟩, y, hy, rfl⟩ | ⟨-, y, hy, rfl⟩
      · exact ⟨cs, by rw [hbefore]; rfl, by rw [hbefore]; exact Nat.le_zero.1 hclear, hgroup⟩
      · refine (ih hy ⟨inner, rest, hclosing, ?_⟩).extend
        cases s with
        | outside name => exact all_eq_nil_of_not_isGroup hindex
        | inside name more body => cases hclear
      · exact (ih hy (Call.Scan.opens_next_le hclear c)).extend
    | index more =>
      obtain ⟨inner, rest, hclosing, hscan⟩ := hclear
      rcases splitFrom_index_cons h with ⟨rfl, rfl, y, hy, rfl⟩ | ⟨more', hon, y, hy, rfl⟩
      · have hzero := Call.opens_eq_zero_of_scan_eq_nil hscan
        exact (ih hy (Call.Scan.opens_next_le (Nat.le_of_eq hzero) ']')).extend
      · obtain ⟨⟨inner', rest'⟩, hclosing', heq⟩ := Option.map_eq_some_iff.1 (hon.symm.trans hclosing)
        cases heq
        rw [Call.scan_cons, List.append_eq_nil_iff] at hscan
        exact (ih hy ⟨inner', rest, hclosing', hscan.2⟩).extend

theorem length_of_split? {cs : List Char} {x : Split} (h : split? cs = some x) :
    x.before.length + x.group.length + x.after.length < cs.length := by
  have hstart : (Place.line 0).Clear (.outside []) cs := Nat.zero_le 0
  obtain ⟨rest, rfl, -, hclosing | ⟨-, hgroup, hafter⟩⟩ := cuts_of_splitFrom h hstart
  · rw [Delimited.eq_append_of_closing hclosing]
    simp only [List.length_append, List.length_cons]
    omega
  · rw [hgroup, hafter]
    simp only [List.length_append, List.length_cons, List.length_nil]
    omega

/-- The calls of a text are those before its group, in the group and behind it. -/
theorem all_eq_of_split? {cs : List Char} {x : Split} (h : split? cs = some x)
    (hmatch : ClosersMatch cs) :
    Call.all cs = Call.all x.before ++ Call.all x.group ++ Call.all x.after ∧ ClosersMatch x.group := by
  have hstart : (Place.line 0).Clear (.outside []) cs := Nat.zero_le 0
  obtain ⟨rest, rfl, hopens, hgroup⟩ := cuts_of_splitFrom h hstart
  have hcut : Call.all (x.before ++ '[' :: rest) = Call.all x.before ++ Call.all rest :=
    Call.scan_append_separator hopens (Or.inl rfl) rest
  obtain ⟨stack, hstack⟩ := Option.isSome_iff_exists.1 hmatch
  rw [unclosed_append] at hstack
  obtain ⟨base, -, hbase⟩ := Option.bind_eq_some_iff.1 hstack
  -- The group's bracket is the innermost one where its content begins.
  have hrest : unclosed ([] ++ .square :: base) rest = some stack := hbase
  rw [hcut, List.append_assoc]
  rcases hgroup with hclosing | ⟨hclosing, hg, ha⟩
  · have hinner : WellNested x.group := (unclosed_of_closing (squares_nil ▸ hclosing) hrest).1
    have hsep := Call.scan_append_separator (Call.opens_after_of_wellNested hinner)
      (Or.inr (Or.inr rfl)) x.after
    rw [eq_append_of_closing hclosing]
    exact ⟨congrArg (Call.all x.before ++ ·) hsep, Option.isSome_of_eq_some hinner⟩
  · obtain ⟨extra, hextra, -⟩ := unclosed_of_closing_eq_none (squares_nil ▸ hclosing) hrest
    rw [hg, ha]
    exact ⟨by simp [Call.all, Call.scan], Option.isSome_of_eq_some hextra⟩

theorem flatMap_instructions_branches (parts : List (List Char)) :
    (parts.zipIdx.map fun (part, index) => branch part index).flatMap (·.instructions) =
      (parts.flatMap Call.all).map Call.toInstruction := by
  conv => rhs; rw [← List.zipIdx_map_fst 0 parts, List.flatMap_map]
  rw [List.flatMap_map, List.map_flatMap]
  rfl

/-- Where every closing bracket matches the innermost open one, a rung has the instructions that its
text calls, in their order, however its branches, indices and nested calls stand to each other. -/
theorem instructions_ofText {text : String} (h : ClosersMatch text.toList) :
    (ofText text).instructions = Instruction.allIn text.toList := by
  unfold ofText ofChars instructions Instruction.allIn
  cases hsplit : split? text.toList with
  | none => simp
  | some x =>
    obtain ⟨hall, hgroup⟩ := all_eq_of_split? hsplit h
    simp only [flatMap_instructions_branches, Call.flatMap_all_splitTopLevel hgroup]
    rw [hall, List.map_append, List.map_append]

theorem instructions_ofText_unclosed :
    ClosersMatch "MOV(Data[i,1],X) Data[3] [XIC(B) [OTE(C),RES(ABS(D))],TON(T,[5".toList ∧
      (ofText "MOV(Data[i,1],X) Data[3] [XIC(B) [OTE(C),RES(ABS(D))],TON(T,[5").instructions.map (·.kind) =
        ["MOV", "XIC", "OTE", "RES", "TON"] := by
  have h : ClosersMatch "MOV(Data[i,1],X) Data[3] [XIC(B) [OTE(C),RES(ABS(D))],TON(T,[5".toList := by
    decide +kernel
  refine ⟨h, ?_⟩
  rw [instructions_ofText h]
  decide +kernel

end LadderLogic.Circuit
