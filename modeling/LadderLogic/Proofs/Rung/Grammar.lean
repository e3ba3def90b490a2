import LadderLogic.Proofs.Rung.Call
import Mathlib.Data.List.DropRight
import Mathlib.Data.List.Infix
import Mathlib.Tactic.MkIffOfInductiveProp

/-! The grammar of calls: a text is a row of calls with gaps between them, in exactly one way, and the calls are
those that the search finds. -/
namespace LadderLogic.Call

/-- The letters, digits and underscores at the end of a text. -/
def runBefore (cs : List Char) : List Char :=
  cs.rtakeWhile isNameChar

/-- The name at the end of a text. Digits in front of it do not belong to it. -/
def nameBefore (cs : List Char) : List Char :=
  (runBefore cs).dropWhile Char.isDigit

/-- No parenthesis opens directly behind letters, digits and underscores that are not all digits. -/
def IsGap (cs : List Char) : Prop :=
  ∀ a b, cs = a ++ '(' :: b → ∀ c ∈ runBefore a, c.isDigit

/-- No parenthesis closes one that was opened before the text. -/
def IsOpen (cs : List Char) : Prop :=
  ∀ a, a <+: cs → a.count ')' ≤ a.count '('

/-- The parentheses match. -/
def Balanced (cs : List Char) : Prop :=
  IsOpen cs ∧ cs.count ')' = cs.count '('

/-- A text cut into calls and the gaps around them. -/
inductive Layout where
  /-- No call follows. -/
  | stop (gap : List Char)
  /-- The last call, which is never closed. -/
  | unclosed (gap name body : List Char)
  | call (gap name body : List Char) (rest : Layout)
deriving DecidableEq

namespace Layout

def text : Layout → List Char
  | .stop gap => gap
  | .unclosed gap name body => gap ++ name ++ '(' :: body
  | .call gap name body rest => gap ++ name ++ '(' :: (body ++ ')' :: rest.text)

def calls : Layout → List Call
  | .stop _ => []
  | .unclosed _ name body => [⟨name, body⟩]
  | .call _ name body rest => ⟨name, body⟩ :: rest.calls

/-- The name is the whole name before the parenthesis, and the gap before it has none. -/
@[mk_iff]
structure Opens (gap name : List Char) : Prop where
  isGap : IsGap gap
  nonempty : name ≠ []
  nameBefore_eq : nameBefore (gap ++ name) = name

def Valid : Layout → Prop
  | .stop gap => IsGap gap
  | .unclosed gap name body => Opens gap name ∧ IsOpen body
  | .call gap name body rest => Opens gap name ∧ Balanced body ∧ rest.Valid

end Layout

instance (cs : List Char) : Decidable (IsOpen cs) :=
  decidable_of_iff (∀ a ∈ cs.inits, a.count ')' ≤ a.count '(') (by simp [IsOpen])

instance (cs : List Char) : Decidable (IsGap cs) :=
  decidable_of_iff (∀ a ∈ cs.inits, a ++ ['('] <+: cs → (runBefore a).all Char.isDigit) <| by
    simp only [List.all_eq_true]
    constructor
    · rintro h a b rfl
      exact h a (by simp) ⟨b, by simp⟩
    · rintro h a - ⟨b, rfl⟩
      exact h a b (by simp)

instance (cs : List Char) : Decidable (Balanced cs) :=
  inferInstanceAs (Decidable (_ ∧ _))

instance (gap name : List Char) : Decidable (Layout.Opens gap name) :=
  decidable_of_iff _ (Layout.opens_iff gap name).symm

instance Layout.decidableValid : DecidablePred Layout.Valid
  | .stop gap => inferInstanceAs (Decidable (IsGap gap))
  | .unclosed gap name body => inferInstanceAs (Decidable (Opens gap name ∧ IsOpen body))
  | .call gap name body rest =>
    have := decidableValid rest
    inferInstanceAs (Decidable (Opens gap name ∧ Balanced body ∧ rest.Valid))

/-- Two texts before the same character are equal if neither goes on with that character in the
other. -/
theorem eq_of_append_cons_eq {x : Char} {a b a' b' : List Char} (h : a ++ x :: b = a' ++ x :: b')
    (ha : ∀ c, a ≠ a' ++ x :: c) (ha' : ∀ c, a' ≠ a ++ x :: c) : a = a' ∧ b = b' := by
  rcases List.append_eq_append_iff.1 h with ⟨c, hc, hb⟩ | ⟨c, hc, hb⟩
  · cases c with
    | nil => exact ⟨by rw [hc, List.append_nil], (List.cons.inj hb).2⟩
    | cons y c =>
      obtain ⟨rfl, -⟩ := List.cons.inj hb
      exact absurd hc (ha' c)
  · cases c with
    | nil => exact ⟨by rw [hc, List.append_nil], (List.cons.inj hb).2.symm⟩
    | cons y c =>
      obtain ⟨rfl, -⟩ := List.cons.inj hb
      exact absurd hc (ha c)

theorem nameBefore_eq_nil_iff {cs : List Char} : nameBefore cs = [] ↔ ∀ c ∈ runBefore cs, c.isDigit :=
  List.dropWhile_eq_nil_iff

theorem isNameChar_eq (c : Char) : isNameChar c = (isNameStart c || c.isDigit) := by
  simp only [isNameChar, isNameStart, Char.isAlphanum]
  ac_rfl

theorem isDigit_eq_false_of_isNameStart {c : Char} (h : isNameStart c) : c.isDigit = false := by
  rw [isNameStart, Bool.or_eq_true, beq_iff_eq] at h
  rcases h with h | rfl
  · unfold Char.isAlpha Char.isUpper Char.isLower at h
    unfold Char.isDigit
    grind
  · rfl

/-- The search keeps the name before the place where it is. -/
theorem next_outside_nameBefore (cs : List Char) {c : Char} (h : c = '(' → nameBefore cs = []) :
    (Scan.outside (nameBefore cs)).next c = .outside (nameBefore (cs ++ [c])) := by
  by_cases hchar : isNameChar c
  · have hrun : runBefore (cs ++ [c]) = runBefore cs ++ [c] := List.rtakeWhile_concat_pos _ _ _ hchar
    have hname : nameBefore (cs ++ [c]) =
        if nameBefore cs = [] then [c].dropWhile Char.isDigit else nameBefore cs ++ [c] := by
      rw [nameBefore, hrun, List.dropWhile_append]
      simp [nameBefore]
    by_cases hstart : isNameStart c
    · have hdigit := isDigit_eq_false_of_isNameStart hstart
      rw [Scan.next_outside (Or.inl hstart), hname]
      split
      · next hnil => simp [hnil, hdigit]
      · rfl
    · have hdigit : c.isDigit := by simpa [isNameChar_eq, hstart] using hchar
      rw [hname]
      split
      · next hnil => simp [Scan.next, hnil, hstart, hdigit]
      · next hne => rw [Scan.next_outside (Or.inr ⟨hchar, hne⟩)]
  · have hrun : runBefore (cs ++ [c]) = [] := List.rtakeWhile_concat_neg _ _ _ hchar
    have hstart : isNameStart c = false := by
      rw [isNameChar_eq, Bool.or_eq_true, not_or] at hchar
      exact Bool.eq_false_iff.2 hchar.1
    have hname : nameBefore (cs ++ [c]) = [] := by rw [nameBefore, hrun]; rfl
    rw [hname]
    simpa [Scan.next, hstart, hchar] using h

theorem IsGap.of_append {a b : List Char} (h : IsGap (a ++ b)) : IsGap a := by
  intro a' b' hab
  exact h a' (b' ++ b) (by rw [hab, List.append_assoc, List.cons_append])

theorem isGap_concat {cs : List Char} {c : Char} :
    IsGap (cs ++ [c]) ↔ IsGap cs ∧ (c = '(' → nameBefore cs = []) := by
  constructor
  · intro h
    refine ⟨h.of_append, ?_⟩
    rintro rfl
    exact nameBefore_eq_nil_iff.2 (h cs [] rfl)
  · rintro ⟨h, hc⟩ a b hab
    rcases List.eq_nil_or_concat b with rfl | ⟨b, d, rfl⟩
    · obtain ⟨rfl, hd⟩ := List.append_inj' hab rfl
      exact nameBefore_eq_nil_iff.1 (hc (List.cons.inj hd).1)
    · rw [List.concat_eq_append, ← List.cons_append, ← List.append_assoc] at hab
      exact h a b (List.append_inj' hab rfl).1

/-- A gap is passed over, and leaves the name at its end. -/
theorem scan_gap {gap : List Char} (h : IsGap gap) (rest : List Char) :
    scan (.outside []) (gap ++ rest) = scan (.outside (nameBefore gap)) rest := by
  induction gap using List.reverseRecOn generalizing rest with
  | nil => rfl
  | append_singleton gap c ih =>
    obtain ⟨hgap, hc⟩ := isGap_concat.1 h
    rw [List.append_assoc, List.singleton_append, ih hgap, scan_cons, next_outside_nameBefore gap hc]
    rfl

theorem IsGap.append_of_not_mem {a b : List Char} (ha : IsGap a) (hb : '(' ∉ b) : IsGap (a ++ b) := by
  induction b using List.reverseRecOn with
  | nil => rwa [List.append_nil]
  | append_singleton b c ih =>
    rw [List.mem_append, List.mem_singleton, not_or] at hb
    rw [← List.append_assoc]
    exact isGap_concat.2 ⟨ih hb.1, fun hc => absurd hc.symm hb.2⟩

/-- A text is a gap, or its first parenthesis behind a name stands after one. -/
theorem isGap_or_exists_append (cs : List Char) :
    IsGap cs ∨ ∃ a b, cs = a ++ '(' :: b ∧ IsGap a ∧ nameBefore a ≠ [] := by
  induction cs using List.reverseRecOn with
  | nil => exact Or.inl fun a b hab => by simp at hab
  | append_singleton cs c ih =>
    rcases ih with hgap | ⟨a, b, rfl, ha, hname⟩
    · by_cases hc : c = '(' → nameBefore cs = []
      · exact Or.inl (isGap_concat.2 ⟨hgap, hc⟩)
      · obtain ⟨rfl, hname⟩ := Classical.not_imp.1 hc
        exact Or.inr ⟨cs, [], rfl, hgap, hname⟩
    · exact Or.inr ⟨a, b ++ [c], by rw [List.append_assoc, List.cons_append], ha, hname⟩

theorem IsOpen.of_append {a b : List Char} (h : IsOpen (a ++ b)) : IsOpen a :=
  fun a' ha' => h a' (ha'.trans (List.prefix_append a b))

theorem isOpen_concat {cs : List Char} {c : Char} :
    IsOpen (cs ++ [c]) ↔ IsOpen cs ∧ (c = ')' → cs.count ')' < cs.count '(') := by
  constructor
  · intro h
    refine ⟨h.of_append, ?_⟩
    rintro rfl
    have hall : cs.count ')' + 1 ≤ cs.count '(' := by simpa using h (cs ++ [')']) (List.prefix_refl _)
    exact hall
  · rintro ⟨h, hc⟩ a ha
    rcases List.prefix_concat_iff.1 ha with rfl | ha
    · have hcs := h cs (List.prefix_refl _)
      rw [List.count_append, List.count_append]
      by_cases hclose : c = ')'
      · have hlt := hc hclose
        subst hclose
        exact Nat.le_add_right_of_le hlt
      · have hzero : [c].count ')' = 0 := by simp [hclose]
        omega
    · exact h a ha

/-- The search stays in a call up to the parenthesis that closes it. -/
theorem scan_inside_of_isOpen {body : List Char} (h : IsOpen body) (name rest : List Char) :
    scan (.inside name 0 []) (body ++ rest) =
      scan (.inside name (body.count '(' - body.count ')') body) rest := by
  induction body using List.reverseRecOn generalizing rest with
  | nil => rfl
  | append_singleton body c ih =>
    obtain ⟨hbody, hc⟩ := isOpen_concat.1 h
    have hle := hbody body (List.prefix_refl _)
    rw [List.append_assoc, List.singleton_append, ih hbody, List.count_append, List.count_append]
    by_cases hopen : c = '('
    · subst hopen
      have hmore : body.count '(' + 1 - body.count ')' = body.count '(' - body.count ')' + 1 := by omega
      simp [scan, hmore]
    by_cases hclose : c = ')'
    · subst hclose
      have hlt := hc rfl
      obtain ⟨more, hmore⟩ : ∃ more, body.count '(' - body.count ')' = more + 1 :=
        ⟨body.count '(' - (body.count ')' + 1), by omega⟩
      have hless : body.count '(' - (body.count ')' + 1) = more := by omega
      simp [scan, hmore, hless]
    · simp [scan, hopen, hclose]

theorem Balanced.ne_text {body cs : List Char} (h : Balanced body) (hcs : IsOpen cs) (rest : List Char) :
    cs ≠ body ++ ')' :: rest := by
  intro heq
  have hle : body.count ')' + 1 ≤ body.count '(' := by
    simpa using hcs (body ++ [')']) ⟨rest, by simp [heq]⟩
  have hcount := h.2
  omega

/-- A parenthesis closes the call before a text, or none does. -/
theorem isOpen_or_exists_append (cs : List Char) :
    IsOpen cs ∨ ∃ body rest, cs = body ++ ')' :: rest ∧ Balanced body := by
  induction cs using List.reverseRecOn with
  | nil => exact Or.inl fun a ha => by simp [List.prefix_nil.1 ha]
  | append_singleton cs c ih =>
    rcases ih with hopen | ⟨body, rest, rfl, hbody⟩
    · by_cases hc : c = ')' → cs.count ')' < cs.count '('
      · exact Or.inl (isOpen_concat.2 ⟨hopen, hc⟩)
      · obtain ⟨rfl, hcount⟩ := Classical.not_imp.1 hc
        have hle := hopen cs (List.prefix_refl _)
        exact Or.inr ⟨cs, [], rfl, hopen, by omega⟩
    · exact Or.inr ⟨body, rest ++ [c], by rw [List.append_assoc, List.cons_append], hbody⟩

namespace Layout

theorem Opens.isGap_append {gap name : List Char} (h : Opens gap name) : IsGap (gap ++ name) := by
  refine h.isGap.append_of_not_mem fun hmem => ?_
  rw [← h.nameBefore_eq] at hmem
  have hrun : '(' ∈ runBefore (gap ++ name) := (List.dropWhile_sublist _).subset hmem
  have hchar := List.mem_rtakeWhile_imp hrun
  cases hchar

theorem Opens.scan_eq {gap name : List Char} (h : Opens gap name) (rest : List Char) :
    scan (.outside []) (gap ++ name ++ '(' :: rest) = scan (.inside name 0 []) rest := by
  rw [scan_gap h.isGap_append, h.nameBefore_eq]
  simp [scan, h.nonempty]

/-- The search finds the calls of a layout. -/
theorem Valid.all_text {l : Layout} (h : l.Valid) : all l.text = l.calls := by
  induction l with
  | stop gap =>
    have hscan := scan_gap h []
    rw [List.append_nil] at hscan
    exact hscan
  | unclosed gap name body =>
    obtain ⟨hopens, hbody⟩ := h
    have hinside := scan_inside_of_isOpen hbody name []
    rw [List.append_nil] at hinside
    rw [text, all, hopens.scan_eq, hinside]
    rfl
  | call gap name body rest ih =>
    obtain ⟨hopens, ⟨hbody, hcount⟩, hrest⟩ := h
    have hmore : body.count '(' - body.count ')' = 0 := by omega
    rw [text, all, hopens.scan_eq, scan_inside_of_isOpen hbody, hmore, calls, ← ih hrest]
    rfl

/-- Two layouts of one text open their first call at the same place. -/
theorem Opens.ne_text {gap name cs : List Char} (h : Opens gap name) (hcs : IsGap cs) (rest : List Char) :
    cs ≠ gap ++ name ++ '(' :: rest := by
  intro heq
  have hnil := nameBefore_eq_nil_iff.2 (hcs _ rest heq)
  rw [h.nameBefore_eq] at hnil
  exact h.nonempty hnil

theorem Opens.eq_of_text_eq {gap name rest gap' name' rest' : List Char} (h : Opens gap name)
    (h' : Opens gap' name') (heq : gap ++ name ++ '(' :: rest = gap' ++ name' ++ '(' :: rest') :
    gap = gap' ∧ name = name' ∧ rest = rest' := by
  obtain ⟨hbefore, hrest⟩ := eq_of_append_cons_eq heq (h'.ne_text h.isGap_append) (h.ne_text h'.isGap_append)
  have hname : name = name' := by rw [← h.nameBefore_eq, ← h'.nameBefore_eq, hbefore]
  subst hname
  exact ⟨List.append_cancel_right hbefore, rfl, hrest⟩

/-- A text has at most one layout. -/
theorem Valid.eq_of_text_eq {l l' : Layout} (h : l.Valid) (h' : l'.Valid) (heq : l.text = l'.text) :
    l = l' := by
  induction l generalizing l' with
  | stop gap =>
    cases l' with
    | stop gap' => exact congrArg stop heq
    | unclosed gap' name' body' => exact absurd heq (h'.1.ne_text h _)
    | call gap' name' body' rest' => exact absurd heq (h'.1.ne_text h _)
  | unclosed gap name body =>
    cases l' with
    | stop gap' => exact absurd heq.symm (h.1.ne_text h' _)
    | unclosed gap' name' body' =>
      obtain ⟨rfl, rfl, rfl⟩ := h.1.eq_of_text_eq h'.1 heq
      rfl
    | call gap' name' body' rest' =>
      obtain ⟨rfl, rfl, hbody⟩ := h.1.eq_of_text_eq h'.1 heq
      exact absurd hbody (h'.2.1.ne_text h.2 _)
  | call gap name body rest ih =>
    cases l' with
    | stop gap' => exact absurd heq.symm (h.1.ne_text h' _)
    | unclosed gap' name' body' =>
      obtain ⟨rfl, rfl, hbody⟩ := h.1.eq_of_text_eq h'.1 heq
      exact absurd hbody.symm (h.2.1.ne_text h'.2 _)
    | call gap' name' body' rest' =>
      obtain ⟨rfl, rfl, hbody⟩ := h.1.eq_of_text_eq h'.1 heq
      obtain ⟨rfl, hrest⟩ := eq_of_append_cons_eq hbody (h'.2.1.ne_text h.2.1.1) (h.2.1.ne_text h'.2.1.1)
      rw [ih h.2.2 h'.2.2 hrest]

/-- A text has a layout. -/
theorem exists_valid (cs : List Char) : ∃ l : Layout, l.Valid ∧ l.text = cs := by
  induction hn : cs.length using Nat.strong_induction_on generalizing cs with
  | _ n ih =>
    rcases isGap_or_exists_append cs with hgap | ⟨a, b, rfl, ha, hname⟩
    · exact ⟨.stop cs, hgap, rfl⟩
    · -- The name is cut off the end of what stands before the parenthesis.
      obtain ⟨gap, hgap⟩ : nameBefore a <:+ a := (List.dropWhile_suffix _).trans (List.rtakeWhile_suffix _ _)
      have hopens : Opens gap (nameBefore a) := ⟨(hgap ▸ ha).of_append, hname, by rw [hgap]⟩
      rcases isOpen_or_exists_append b with hb | ⟨body, rest, rfl, hbody⟩
      · exact ⟨.unclosed gap (nameBefore a) b, ⟨hopens, hb⟩, by rw [text, hgap]⟩
      · have hlt : rest.length < n := by
          rw [← hn, List.length_append, List.length_cons, List.length_append, List.length_cons]
          omega
        obtain ⟨l, hl, hrest⟩ := ih _ hlt rest rfl
        exact ⟨.call gap (nameBefore a) body l, ⟨hopens, hbody, hl⟩, by rw [text, hgap, hrest]⟩

end Layout

/-- Every text is laid out in exactly one way as gaps and calls, and its instructions are the calls of
that layout: the name, and the operands in the body. -/
theorem existsUnique_layout (cs : List Char) :
    ∃ l : Layout, (l.Valid ∧ l.text = cs) ∧ (∀ l' : Layout, l'.Valid ∧ l'.text = cs → l' = l) ∧
      Instruction.allIn cs =
        l.calls.map fun c => { kind := String.ofList c.name, operands := operands c.body } := by
  obtain ⟨l, hvalid, htext⟩ := Layout.exists_valid cs
  refine ⟨l, ⟨hvalid, htext⟩, ?_, ?_⟩
  · rintro l' ⟨hvalid', htext'⟩
    exact hvalid'.eq_of_text_eq hvalid (htext'.trans htext.symm)
  · rw [Instruction.allIn, ← htext, hvalid.all_text]
    rfl

-- Digits, a parenthesis without a name and a surplus closing one stand in gaps.
example : (Layout.call "7(".toList "MOV".toList "F(x],1)".toList
    (.unclosed ") 12".toList "A3".toList "B(C) [".toList)).Valid := by
  decide

end LadderLogic.Call
