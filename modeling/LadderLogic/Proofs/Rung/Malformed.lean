import LadderLogic.Proofs.Rung.Circuit

/-! Rungs whose brackets do not match. A call may be cut in two there, but its first part is still a call of the
same name, so that no instruction is lost. -/
namespace LadderLogic

namespace Call

/-- The search that is inside a call goes on in step with any search that has no more parentheses
open, as soon as the call is closed. -/
theorem scan_inside_suffix (name body cs : List Char) (more : Nat) {s : Scan} (h : s.opens ≤ more + 1) :
    ∃ body' rest, scan (.inside name more body) cs = ⟨name, body'⟩ :: rest ∧ rest <:+ scan s cs := by
  induction cs generalizing more body s with
  | nil => exact ⟨body, [], rfl, List.nil_suffix⟩
  | cons c cs ih =>
    have hnext := Scan.opens_next_le h c
    have hsuffix : scan (s.next c) cs <:+ scan s (c :: cs) := by
      rw [scan_cons]
      exact List.suffix_append _ _
    have hon : ∀ more', (s.next c).opens ≤ more' + 1 →
        scan (.inside name more body) (c :: cs) = scan (.inside name more' (body ++ [c])) cs →
        ∃ body' rest, scan (.inside name more body) (c :: cs) = ⟨name, body'⟩ :: rest ∧
          rest <:+ scan s (c :: cs) := by
      intro more' hopens hscan
      obtain ⟨body', rest, hcall, hrest⟩ := ih (body ++ [c]) more' hopens
      exact ⟨body', rest, hscan.trans hcall, hrest.trans hsuffix⟩
    by_cases hopen : c = '('
    · subst hopen
      exact hon (more + 1) hnext rfl
    by_cases hclose : c = ')'
    · subst hclose
      cases more with
      | succ more => exact hon more hnext rfl
      | zero =>
        -- The call is closed, and so is any call that the other search is in.
        have houtside : s.next ')' = .outside [] := by
          cases s with
          | outside name' => rfl
          | inside name' more' body' =>
            obtain rfl : more' = 0 := by simpa [Scan.opens] using h
            rfl
        exact ⟨body, scan (.outside []) cs, rfl, houtside ▸ hsuffix⟩
    · refine hon more (by simpa [hopen, hclose] using hnext) ?_
      simp [scan, hopen, hclose]

/-- A bracket or a comma that cuts a text, be it inside a call, loses none of its calls. -/
theorem names_scan_append_separator (s : Scan) (a : List Char) {c : Char}
    (hc : c = '[' ∨ c = ',' ∨ c = ']') (b : List Char) :
    ((scan s (a ++ c :: b)).map (·.name)).Sublist ((scan s a ++ all b).map (·.name)) := by
  induction a generalizing s with
  | nil =>
    cases s with
    | outside name =>
      have hsep := scan_append_separator (s := .outside name) (a := []) rfl hc b
      simp only [hsep, List.Sublist.refl]
    | inside name more body =>
      have hstep : scan (.inside name more body) (c :: b) = scan (.inside name more (body ++ [c])) b := by
        rcases hc with rfl | rfl | rfl <;> rfl
      have hopens : (Scan.outside []).opens ≤ more + 1 := Nat.zero_le _
      obtain ⟨body', rest, hcall, hrest⟩ := scan_inside_suffix name (body ++ [c]) b more hopens
      rw [List.nil_append, hstep, hcall]
      exact (hrest.sublist.map _).cons_cons name
  | cons d a ih =>
    rw [List.cons_append, scan_cons, scan_cons, List.append_assoc, List.map_append, List.map_append]
    exact (List.Sublist.refl _).append (ih (s.next d))

theorem names_all_intercalate (parts : List (List Char)) :
    ((all ([','].intercalate parts)).map (·.name)).Sublist ((parts.flatMap all).map (·.name)) := by
  induction parts with
  | nil => exact List.Sublist.refl _
  | cons part parts ih =>
    cases parts with
    | nil => simp
    | cons part' parts =>
      have hcut := names_scan_append_separator (.outside []) part (Or.inr (Or.inl rfl))
        ([','].intercalate (part' :: parts))
      rw [List.intercalate_cons_cons, List.append_assoc, List.flatMap_cons, List.map_append]
      rw [List.map_append] at hcut
      exact hcut.trans ((List.Sublist.refl _).append ih)

theorem map_kind_toInstruction (calls : List Call) :
    (calls.map toInstruction).map (·.kind) = (calls.map (·.name)).map String.ofList := by
  rw [List.map_map, List.map_map]
  rfl

end Call

/-- The parts and the commas between them are the text. -/
theorem Delimited.intercalate_splitFrom (depth : Nat) (cs : List Char) :
    [','].intercalate (splitFrom depth cs) = cs := by
  induction cs generalizing depth with
  | nil => rfl
  | cons c cs ih =>
    simp only [splitFrom]
    split
    · next hcomma =>
      obtain rfl : c = ',' := eq_of_beq (Bool.and_eq_true_iff.1 hcomma).1
      obtain ⟨part, parts, hparts⟩ := List.exists_cons_of_ne_nil (splitFrom_ne_nil 0 cs)
      rw [hparts, List.intercalate_cons_cons, ← hparts, ih]
      rfl
    · obtain ⟨part, parts, hparts⟩ := List.exists_cons_of_ne_nil (splitFrom_ne_nil (depthAfter depth c) cs)
      have hrest := ih (depthAfter depth c)
      rw [hparts] at hrest ⊢
      rw [← hrest]
      cases parts with
      | nil => simp [extend]
      | cons part' parts => simp [extend, List.intercalate_cons_cons]

theorem Delimited.intercalate_splitTopLevel (cs : List Char) :
    [','].intercalate (splitTopLevel cs) = cs :=
  intercalate_splitFrom 0 cs

namespace Circuit

theorem names_all_of_split? {cs : List Char} {x : Split} (h : split? cs = some x) :
    ((Call.all cs).map (·.name)).Sublist
      ((Call.all x.before ++ (Call.all x.group ++ Call.all x.after)).map (·.name)) := by
  have hstart : (Place.line 0).Clear (.outside []) cs := Nat.zero_le 0
  obtain ⟨rest, rfl, -, hgroup⟩ := cuts_of_splitFrom h hstart
  have hrest : ((Call.all rest).map (·.name)).Sublist
      ((Call.all x.group ++ Call.all x.after).map (·.name)) := by
    rcases hgroup with hclosing | ⟨-, hg, ha⟩
    · rw [Delimited.eq_append_of_closing hclosing]
      exact Call.names_scan_append_separator (.outside []) x.group (Or.inr (Or.inr rfl)) x.after
    · rw [hg, ha, List.map_append]
      exact List.sublist_append_left _ _
  have hcut := Call.names_scan_append_separator (.outside []) x.before (Or.inl rfl) rest
  rw [List.map_append] at hcut ⊢
  exact hcut.trans ((List.Sublist.refl _).append hrest)

/-- Whatever the brackets of a text are, its circuit has every instruction that the text calls, in
their order. -/
theorem kinds_allIn_sublist_ofText (text : String) :
    ((Instruction.allIn text.toList).map (·.kind)).Sublist ((ofText text).instructions.map (·.kind)) := by
  unfold ofText ofChars instructions Instruction.allIn
  cases hsplit : split? text.toList with
  | none => simp
  | some x =>
    have hparts := Call.names_all_intercalate (Delimited.splitTopLevel x.group)
    rw [Delimited.intercalate_splitTopLevel] at hparts
    have hnames := names_all_of_split? hsplit
    simp only [List.map_append] at hnames
    have hall := hnames.trans ((List.Sublist.refl _).append (hparts.append (List.Sublist.refl _)))
    simp only [flatMap_instructions_branches, List.append_assoc, List.map_append, Call.map_kind_toInstruction]
    simpa only [List.map_append] using hall.map String.ofList

-- The bracket closes the group inside a call, so that an operand of it becomes a call.
example : (Instruction.allIn "[XIC(A] OTE(B)) RES(C)".toList).map (·.kind) = ["XIC", "RES"] ∧
    (ofText "[XIC(A] OTE(B)) RES(C)").instructions.map (·.kind) = ["XIC", "OTE", "RES"] := by
  decide +kernel

end Circuit

end LadderLogic
