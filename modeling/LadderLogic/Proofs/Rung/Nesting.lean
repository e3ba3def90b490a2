import LadderLogic.Rung.Circuit

/-! Well-nested texts. The scanners of a rung, each with a count of its own, agree there with the stack of open
brackets. -/
namespace LadderLogic

inductive Bracket where
  | round
  | square
deriving DecidableEq

namespace Nesting

/-- The open brackets after a character, the innermost first. A closing bracket has to match the
innermost open one. -/
def step (stack : List Bracket) (c : Char) : Option (List Bracket) :=
  match c, stack with
  | '(', _ => some (.round :: stack)
  | '[', _ => some (.square :: stack)
  | ')', .round :: rest => some rest
  | ')', _ => none
  | ']', .square :: rest => some rest
  | ']', _ => none
  | _, _ => some stack

/-- The brackets that are open after a text. -/
def unclosed : List Bracket → List Char → Option (List Bracket)
  | stack, [] => some stack
  | stack, c :: cs => (step stack c).bind fun stack' => unclosed stack' cs

/-- Each closing bracket matches the innermost open one. At the end brackets may be open. -/
def ClosersMatch (cs : List Char) : Prop :=
  (unclosed [] cs).isSome

/-- Each closing bracket matches the innermost open one, and at the end no bracket is open. -/
def WellNested (cs : List Char) : Prop :=
  unclosed [] cs = some []

/-- No comma stands outside the brackets of the text. -/
def NoOuterComma (cs : List Char) : Prop :=
  ∀ a b, cs = a ++ ',' :: b → unclosed [] a ≠ some []

instance (cs : List Char) : Decidable (ClosersMatch cs) :=
  inferInstanceAs (Decidable (_ = true))

instance (cs : List Char) : Decidable (WellNested cs) :=
  inferInstanceAs (Decidable (_ = _))

theorem noOuterComma_iff {cs : List Char} :
    NoOuterComma cs ↔ ∀ n < cs.length, cs[n]? = some ',' → unclosed [] (cs.take n) ≠ some [] := by
  constructor
  · intro h n hn hcomma
    obtain ⟨hn, hc⟩ := List.getElem?_eq_some_iff.1 hcomma
    refine h (cs.take n) (cs.drop (n + 1)) ?_
    rw [← hc, ← List.drop_eq_getElem_cons hn, List.take_append_drop]
  · rintro h a b rfl
    have hcomma := h a.length (by simp) (by simp)
    rwa [List.take_left] at hcomma

instance (cs : List Char) : Decidable (NoOuterComma cs) :=
  decidable_of_iff _ noOuterComma_iff.symm

def rounds (stack : List Bracket) : Nat :=
  stack.count .round

def squares (stack : List Bracket) : Nat :=
  stack.count .square

@[simp] theorem rounds_nil : rounds [] = 0 := rfl

@[simp] theorem squares_nil : squares [] = 0 := rfl

/-- What a character can do to the open brackets. -/
theorem step_cases {stack stack' : List Bracket} {c : Char} (h : step stack c = some stack') :
    c = '(' ∧ stack' = .round :: stack ∨ c = '[' ∧ stack' = .square :: stack ∨
      c = ')' ∧ stack = .round :: stack' ∨ c = ']' ∧ stack = .square :: stack' ∨
      (c ≠ '(' ∧ c ≠ ')' ∧ c ≠ '[' ∧ c ≠ ']') ∧ stack' = stack := by
  unfold step at h
  split at h <;> simp_all

theorem unclosed_append (stack : List Bracket) (a b : List Char) :
    unclosed stack (a ++ b) = (unclosed stack a).bind fun stack' => unclosed stack' b := by
  induction a generalizing stack with
  | nil => rfl
  | cons c a ih =>
    simp only [List.cons_append, unclosed]
    cases step stack c with
    | none => rfl
    | some stack' => exact ih stack'

theorem unclosed_cons_eq_some {stack stack' : List Bracket} {c : Char} {cs : List Char}
    (h : unclosed stack (c :: cs) = some stack') :
    ∃ mid, step stack c = some mid ∧ unclosed mid cs = some stack' :=
  Option.bind_eq_some_iff.1 h

theorem step_of_ne {c : Char} (h : c ≠ '(' ∧ c ≠ ')' ∧ c ≠ '[' ∧ c ≠ ']') (stack : List Bracket) :
    step stack c = some stack := by
  unfold step
  split <;> simp_all

/-- A character acts on the innermost brackets, or it closes the first one of those around them. -/
theorem step_append {extra base stack' : List Bracket} {c : Char}
    (h : step (extra ++ base) c = some stack') :
    (∃ extra', step extra c = some extra' ∧ stack' = extra' ++ base) ∨
      extra = [] ∧ (c = ')' ∧ base = .round :: stack' ∨ c = ']' ∧ base = .square :: stack') := by
  rcases step_cases h with ⟨rfl, rfl⟩ | ⟨rfl, rfl⟩ | ⟨rfl, hs⟩ | ⟨rfl, hs⟩ | ⟨hne, rfl⟩
  · exact Or.inl ⟨.round :: extra, rfl, rfl⟩
  · exact Or.inl ⟨.square :: extra, rfl, rfl⟩
  · cases extra with
    | nil => exact Or.inr ⟨rfl, Or.inl ⟨rfl, hs⟩⟩
    | cons b extra =>
      obtain ⟨rfl, rfl⟩ := List.cons.inj hs
      exact Or.inl ⟨extra, rfl, rfl⟩
  · cases extra with
    | nil => exact Or.inr ⟨rfl, Or.inr ⟨rfl, hs⟩⟩
    | cons b extra =>
      obtain ⟨rfl, rfl⟩ := List.cons.inj hs
      exact Or.inl ⟨extra, rfl, rfl⟩
  · exact Or.inl ⟨extra, step_of_ne hne extra, rfl⟩

end Nesting

namespace Delimited
open Nesting

/-- A character ends the search for the closing bracket, or the search goes on behind it. -/
theorem closing_cons_cases (opener closer : Char) (more : Nat) (c : Char) :
    (c = closer ∧ ∀ cs, closing opener closer more (c :: cs) = some ([], cs)) ∨
      ∃ more', ∀ cs, closing opener closer more (c :: cs) =
        (closing opener closer more' cs).map fun (inner, rest) => (c :: inner, rest) := by
  simp only [closing]
  split
  · exact Or.inr ⟨more + 1, fun _ => rfl⟩
  · split
    · next hcloser =>
      cases more with
      | zero => exact Or.inl ⟨eq_of_beq hcloser, fun _ => rfl⟩
      | succ more => exact Or.inr ⟨more, fun _ => rfl⟩
    · exact Or.inr ⟨more, fun _ => rfl⟩

theorem eq_append_of_closing {opener closer : Char} {more : Nat} {cs inner rest : List Char}
    (h : closing opener closer more cs = some (inner, rest)) : cs = inner ++ closer :: rest := by
  induction cs generalizing more inner with
  | nil => cases h
  | cons c cs ih =>
    rcases closing_cons_cases opener closer more c with ⟨rfl, hend⟩ | ⟨more', hon⟩
    · cases (hend cs).symm.trans h
      rfl
    · obtain ⟨⟨inner', rest'⟩, hclosing, heq⟩ := Option.map_eq_some_iff.1 ((hon cs).symm.trans h)
      cases heq
      rw [ih hclosing, List.cons_append]

theorem closing_append_of_eq_some {opener closer : Char} {more : Nat} {cs inner rest : List Char}
    (h : closing opener closer more cs = some (inner, rest)) (cs' : List Char) :
    closing opener closer more (cs ++ cs') = some (inner, rest ++ cs') := by
  induction cs generalizing more inner with
  | nil => cases h
  | cons c cs ih =>
    rcases closing_cons_cases opener closer more c with ⟨rfl, hend⟩ | ⟨more', hon⟩
    · cases (hend cs).symm.trans h
      exact hend _
    · obtain ⟨⟨inner', rest'⟩, hclosing, heq⟩ := Option.map_eq_some_iff.1 ((hon cs).symm.trans h)
      cases heq
      rw [List.cons_append, hon, ih hclosing, Option.map_some]

/-- The search for a closing bracket keeps step with the square brackets that are open. -/
theorem closing_cons_of_step {stack stack' : List Bracket} {c : Char} (h : step stack c = some stack')
    (cs : List Char) :
    closing '[' ']' (squares stack) (c :: cs) =
      (closing '[' ']' (squares stack') cs).map fun (inner, rest) => (c :: inner, rest) := by
  rcases step_cases h with ⟨rfl, rfl⟩ | ⟨rfl, rfl⟩ | ⟨rfl, rfl⟩ | ⟨rfl, rfl⟩ | ⟨⟨-, -, hopen, hclose⟩, rfl⟩
  · simp [closing, squares]
  · simp [closing, squares]
  · simp [closing, squares]
  · simp [closing, squares]
  · simp [closing, hopen, hclose]

theorem closing_append {stack stack' : List Bracket} {cs : List Char}
    (h : unclosed stack cs = some stack') (cs' : List Char) :
    closing '[' ']' (squares stack) (cs ++ cs') =
      (closing '[' ']' (squares stack') cs').map fun (inner, rest) => (cs ++ inner, rest) := by
  induction cs generalizing stack with
  | nil => cases h; simp
  | cons c cs ih =>
    obtain ⟨mid, hstep, hrest⟩ := unclosed_cons_eq_some h
    rw [List.cons_append, closing_cons_of_step hstep, ih hrest, Option.map_map]
    rfl

/-- Where closing brackets match, the search finds the bracket that closes the one around `extra`.
-/
theorem unclosed_of_closing {extra base stack : List Bracket} {cs inner rest : List Char}
    (hclosing : closing '[' ']' (squares extra) cs = some (inner, rest))
    (h : unclosed (extra ++ .square :: base) cs = some stack) :
    unclosed extra inner = some [] ∧ unclosed base rest = some stack := by
  induction cs generalizing extra inner with
  | nil => cases hclosing
  | cons c cs ih =>
    obtain ⟨mid, hstep, hrest⟩ := unclosed_cons_eq_some h
    rcases step_append hstep with ⟨extra', hextra, rfl⟩ | ⟨rfl, ⟨-, hbase⟩ | ⟨rfl, hbase⟩⟩
    · rw [closing_cons_of_step hextra] at hclosing
      obtain ⟨⟨inner', rest'⟩, hclosing', heq⟩ := Option.map_eq_some_iff.1 hclosing
      cases heq
      obtain ⟨hinner, hbase⟩ := ih hclosing' hrest
      exact ⟨by simp [unclosed, hextra, hinner], hbase⟩
    · cases hbase
    · cases hbase
      cases hclosing
      exact ⟨rfl, hrest⟩

theorem unclosed_of_closing_eq_none {extra base stack : List Bracket} {cs : List Char}
    (hclosing : closing '[' ']' (squares extra) cs = none)
    (h : unclosed (extra ++ .square :: base) cs = some stack) :
    ∃ extra', unclosed extra cs = some extra' ∧ stack = extra' ++ .square :: base := by
  induction cs generalizing extra with
  | nil => cases h; exact ⟨extra, rfl, rfl⟩
  | cons c cs ih =>
    obtain ⟨mid, hstep, hrest⟩ := unclosed_cons_eq_some h
    rcases step_append hstep with ⟨extra', hextra, rfl⟩ | ⟨rfl, ⟨-, hbase⟩ | ⟨rfl, hbase⟩⟩
    · rw [closing_cons_of_step hextra, Option.map_eq_none_iff] at hclosing
      obtain ⟨extra'', hunclosed, rfl⟩ := ih hclosing hrest
      exact ⟨extra'', by simp [unclosed, hextra, hunclosed], rfl⟩
    · cases hbase
    · cases hclosing

theorem depthAfter_of_step {stack stack' : List Bracket} {c : Char} (h : step stack c = some stack') :
    depthAfter stack.length c = stack'.length := by
  rcases step_cases h with ⟨rfl, rfl⟩ | ⟨rfl, rfl⟩ | ⟨rfl, rfl⟩ | ⟨rfl, rfl⟩ | ⟨⟨h₁, h₂, h₃, h₄⟩, rfl⟩
  · simp [depthAfter]
  · simp [depthAfter]
  · simp [depthAfter]
  · simp [depthAfter]
  · simp [depthAfter, h₁, h₂, h₃, h₄]

theorem splitFrom_ne_nil (depth : Nat) (cs : List Char) : splitFrom depth cs ≠ [] := by
  cases cs with
  | nil => simp [splitFrom]
  | cons c cs =>
    simp only [splitFrom]
    split
    · simp
    · unfold extend
      split <;> simp

end Delimited

theorem Circuit.hasCommaFrom_append {stack : List Bracket} {cs : List Char}
    (h : Nesting.unclosed stack cs = some []) (cs' : List Char) :
    hasCommaFrom (Nesting.rounds stack) (cs ++ ',' :: cs') = true := by
  induction cs generalizing stack with
  | nil => cases h; simp [hasCommaFrom, Nesting.rounds]
  | cons c cs ih =>
    obtain ⟨mid, hstep, hrest⟩ := Nesting.unclosed_cons_eq_some h
    have hmid := ih hrest
    rcases Nesting.step_cases hstep with
      ⟨rfl, rfl⟩ | ⟨rfl, rfl⟩ | ⟨rfl, rfl⟩ | ⟨rfl, rfl⟩ | ⟨⟨h₁, h₂, -, -⟩, rfl⟩
    · simpa [hasCommaFrom, Nesting.rounds] using hmid
    · simpa [hasCommaFrom, Nesting.rounds] using hmid
    · simpa [hasCommaFrom, Nesting.rounds] using hmid
    · simpa [hasCommaFrom, Nesting.rounds] using hmid
    · simp [hasCommaFrom, h₁, h₂, hmid]

end LadderLogic
