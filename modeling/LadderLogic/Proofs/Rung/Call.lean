import LadderLogic.Proofs.Rung.Nesting

/-! Where the search for calls can be cut: at a bracket or comma outside calls it starts afresh. -/
namespace LadderLogic.Call

namespace Scan

/-- The open parentheses of the call around a place. -/
def opens : Scan → Nat
  | .outside _ => 0
  | .inside _ more _ => more + 1

/-- The state after a character. -/
def next : Scan → Char → Scan
  | .outside name, c =>
    if c == '(' && !name.isEmpty then .inside name 0 []
    else if isNameStart c || (isNameChar c && !name.isEmpty) then .outside (name ++ [c])
    else .outside []
  | .inside name more body, c =>
    if c == '(' then .inside name (more + 1) (body ++ [c])
    else if c == ')' then
      match more with
      | 0 => .outside []
      | more + 1 => .inside name more (body ++ [c])
    else .inside name more (body ++ [c])

/-- The call that a character completes, if it completes one. -/
def completed : Scan → Char → List Call
  | .inside name 0 body, c => if c == ')' then [⟨name, body⟩] else []
  | _, _ => []

/-- The state after a text. -/
def after (s : Scan) (cs : List Char) : Scan :=
  cs.foldl next s

end Scan

theorem scan_cons (s : Scan) (c : Char) (cs : List Char) :
    scan s (c :: cs) = s.completed c ++ scan (s.next c) cs := by
  cases s with
  | outside name =>
    simp only [scan, Scan.next, Scan.completed, List.nil_append]
    split
    · rfl
    · split <;> rfl
  | inside name more body =>
    simp only [scan, Scan.next]
    split
    · next hopen =>
      have hne : (c == ')') = false := by rw [eq_of_beq hopen]; rfl
      cases more <;> simp [Scan.completed, hne]
    · split
      · next hclose => cases more <;> simp [Scan.completed, hclose]
      · next hclose => cases more <;> simp [Scan.completed, hclose]

/-- A call that has begun is found. -/
theorem scan_inside_ne_nil (name : List Char) (more : Nat) (body cs : List Char) :
    scan (.inside name more body) cs ≠ [] := by
  induction cs generalizing more body with
  | nil => simp [scan]
  | cons c cs ih =>
    simp only [scan]
    split
    · exact ih _ _
    · split
      · cases more with
        | zero => simp
        | succ more => exact ih _ _
      · exact ih _ _

theorem opens_eq_zero_of_scan_eq_nil {s : Scan} {cs : List Char} (h : scan s cs = []) : s.opens = 0 := by
  cases s with
  | outside name => rfl
  | inside name more body => exact absurd h (scan_inside_ne_nil name more body cs)

/-- Outside calls, a bracket or a comma separates the calls before it from those behind it. -/
theorem scan_append_separator {s : Scan} {a : List Char} (h : (s.after a).opens = 0) {c : Char}
    (hc : c = '[' ∨ c = ',' ∨ c = ']') (b : List Char) :
    scan s (a ++ c :: b) = scan s a ++ all b := by
  induction a generalizing s with
  | nil =>
    cases s with
    | inside name more body => cases h
    | outside name =>
      have hopen : (c == '(') = false := by rcases hc with rfl | rfl | rfl <;> rfl
      have hstart : isNameStart c = false := by rcases hc with rfl | rfl | rfl <;> rfl
      have hname : isNameChar c = false := by rcases hc with rfl | rfl | rfl <;> rfl
      simp [scan, all, hopen, hstart, hname]
  | cons d a ih => rw [List.cons_append, scan_cons, scan_cons, ih h, List.append_assoc]

/-- A call has no more open parentheses than the text. -/
theorem Scan.opens_next_le {s : Scan} {depth : Nat} (h : s.opens ≤ depth) (c : Char) :
    (s.next c).opens ≤ if c == '(' then depth + 1 else if c == ')' then depth - 1 else depth := by
  cases s with
  | outside name =>
    simp only [next]
    split
    · next hc => simp [opens, eq_of_beq (Bool.and_eq_true_iff.1 hc).1]
    · split <;> simp [opens]
  | inside name more body =>
    simp only [opens] at h
    simp only [next]
    split
    · simp only [opens]; omega
    · split
      · cases more with
        | zero => simp [opens]
        | succ more => simp only [opens]; omega
      · simp only [opens]; omega

theorem Scan.opens_next_le_rounds {s : Scan} {stack stack' : List Bracket} {c : Char}
    (h : s.opens ≤ Nesting.rounds stack) (hstep : Nesting.step stack c = some stack') :
    (s.next c).opens ≤ Nesting.rounds stack' := by
  have hle := Scan.opens_next_le h c
  rcases Nesting.step_cases hstep with
    ⟨rfl, rfl⟩ | ⟨rfl, rfl⟩ | ⟨rfl, rfl⟩ | ⟨rfl, rfl⟩ | ⟨⟨h₁, h₂, -, -⟩, rfl⟩
  · simpa [Nesting.rounds] using hle
  · simpa [Nesting.rounds] using hle
  · simpa [Nesting.rounds] using hle
  · simpa [Nesting.rounds] using hle
  · simpa [h₁, h₂] using hle

theorem Scan.opens_after_le_rounds {s : Scan} {stack stack' : List Bracket} {cs : List Char}
    (h : s.opens ≤ Nesting.rounds stack) (hcs : Nesting.unclosed stack cs = some stack') :
    (s.after cs).opens ≤ Nesting.rounds stack' := by
  induction cs generalizing s stack with
  | nil => cases hcs; exact h
  | cons c cs ih =>
    obtain ⟨mid, hstep, hrest⟩ := Nesting.unclosed_cons_eq_some hcs
    exact ih (Scan.opens_next_le_rounds h hstep) hrest

theorem opens_after_of_wellNested {cs : List Char} (h : Nesting.WellNested cs) :
    ((Scan.outside []).after cs).opens = 0 := by
  have hstart : (Scan.outside []).opens ≤ Nesting.rounds [] := Nat.zero_le 0
  exact Nat.le_zero.1 (Scan.opens_after_le_rounds hstart h)

/-- The commas outside brackets cut no call: the first part ends the search that has begun before
it, and each further part is searched on its own. -/
theorem scan_splitFrom {s : Scan} {stack stack' : List Bracket} {cs : List Char}
    (hcs : Nesting.unclosed stack cs = some stack') (h : s.opens ≤ Nesting.rounds stack) :
    ∃ part parts, Delimited.splitFrom stack.length cs = part :: parts ∧
      scan s cs = scan s part ++ parts.flatMap all := by
  induction cs generalizing s stack with
  | nil => exact ⟨[], [], rfl, by simp⟩
  | cons c cs ih =>
    obtain ⟨mid, hstep, hrest⟩ := Nesting.unclosed_cons_eq_some hcs
    by_cases hcomma : c = ',' ∧ stack = []
    · obtain ⟨rfl, rfl⟩ := hcomma
      cases hstep
      obtain ⟨part, parts, hsplit, hscan⟩ := ih (s := .outside []) hrest (Nat.zero_le 0)
      refine ⟨[], part :: parts, by simp [Delimited.splitFrom, ← hsplit], ?_⟩
      have hsep := scan_append_separator (s := s) (a := []) (Nat.le_zero.1 h) (Or.inr (Or.inl rfl)) cs
      rw [List.flatMap_cons, ← List.append_assoc, List.append_assoc, all, ← hscan]
      exact hsep
    · obtain ⟨part, parts, hsplit, hscan⟩ := ih hrest (Scan.opens_next_le_rounds h hstep)
      refine ⟨c :: part, parts, ?_, by rw [scan_cons, scan_cons, hscan, List.append_assoc]⟩
      have hnot : (c == ',' && stack.length == 0) = false := by
        refine Bool.eq_false_iff.2 fun hc => hcomma ?_
        simpa using hc
      simp only [Delimited.splitFrom, hnot, Bool.false_eq_true, if_false,
        Delimited.depthAfter_of_step hstep, hsplit]
      rfl

theorem flatMap_all_splitTopLevel {cs : List Char} (h : Nesting.ClosersMatch cs) :
    (Delimited.splitTopLevel cs).flatMap all = all cs := by
  obtain ⟨stack, hstack⟩ := Option.isSome_iff_exists.1 h
  obtain ⟨part, parts, hsplit, hscan⟩ := scan_splitFrom (s := .outside []) hstack (Nat.zero_le 0)
  rw [Delimited.splitTopLevel, all, hscan]
  exact congrArg (List.flatMap all) hsplit

/-- Somewhere a name stands directly before an opening parenthesis. -/
def ContainsCall (cs : List Char) : Prop :=
  ∃ before c name after, cs = before ++ c :: name ++ '(' :: after ∧
    isNameStart c ∧ ∀ d ∈ name, isNameChar d

theorem scan_append_ne_nil {s : Scan} {a b : List Char} (h : scan (s.after a) b ≠ []) :
    scan s (a ++ b) ≠ [] := by
  induction a generalizing s with
  | nil => exact h
  | cons c a ih =>
    rw [List.cons_append, scan_cons]
    exact List.append_ne_nil_of_right_ne_nil _ (ih h)

theorem Scan.next_outside {name : List Char} {c : Char} (h : isNameStart c ∨ isNameChar c ∧ name ≠ []) :
    (Scan.outside name).next c = .outside (name ++ [c]) := by
  have hopen : c ≠ '(' := by
    intro heq
    subst heq
    rcases h with h | ⟨h, -⟩ <;> cases h
  rcases h with h | ⟨h, hname⟩
  · simp [next, hopen, h]
  · simp [next, hopen, h, hname]

theorem Scan.after_outside {name cs : List Char} (hname : name ≠ []) (h : ∀ c ∈ cs, isNameChar c) :
    (Scan.outside name).after cs = .outside (name ++ cs) := by
  induction cs generalizing name with
  | nil => rw [List.append_nil]; rfl
  | cons c cs ih =>
    obtain ⟨hc, hcs⟩ := List.forall_mem_cons.1 h
    have hstep := ih (List.append_ne_nil_of_right_ne_nil name (List.cons_ne_nil c [])) hcs
    rw [List.append_assoc, List.singleton_append, ← Scan.next_outside (Or.inr ⟨hc, hname⟩)] at hstep
    exact hstep

/-- A call is found wherever a name stands before a parenthesis, be it inside another call. -/
theorem all_ne_nil_of_containsCall {cs : List Char} (h : ContainsCall cs) : all cs ≠ [] := by
  obtain ⟨before, c, name, rest, rfl, hc, hname⟩ := h
  rw [List.append_assoc]
  apply scan_append_ne_nil
  cases (Scan.outside []).after before with
  | inside outer more body => exact scan_inside_ne_nil outer more body _
  | outside partialName =>
    have hafter : (Scan.outside partialName).after (c :: name) = .outside (partialName ++ [c] ++ name) :=
      (congrArg (Scan.after · name) (Scan.next_outside (Or.inl hc))).trans
        (Scan.after_outside (by simp) hname)
    apply scan_append_ne_nil
    rw [hafter]
    simpa [scan] using scan_inside_ne_nil _ 0 [] rest

end LadderLogic.Call
