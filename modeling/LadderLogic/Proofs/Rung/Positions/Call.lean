import LadderLogic.Proofs.Rung.Positions.Delimited
import LadderLogic.Proofs.Rung.Stability

/-! Calls by their byte positions. -/
namespace LadderLogic.Call
open Text

/-- The bytes begin with a name and a parenthesis behind it. -/
def opensAt (bs : List UInt8) : Bool :=
  bs.head?.any (fun b => isNameStart (Char.ofUInt8 b)) &&
    (bs.dropWhile (fun b => isNameChar (Char.ofUInt8 b))).head?.any (fun b => Char.ofUInt8 b == '(')

/-- The range of the first name that has a parenthesis behind it, when the bytes are read from position
`pos` on. -/
def nameFrom? (pos : Nat) : List UInt8 → Option Range
  | [] => none
  | b :: bs =>
    if opensAt (b :: bs) then some ⟨pos, pos + ((b :: bs).takeWhile (fun b => isNameChar (Char.ofUInt8 b))).length⟩
    else nameFrom? (pos + 1) bs

/-- The ranges of a call's name and body, and the position behind the call. A call that is not closed
reaches to the end. -/
structure Cut where
  name : Range
  body : Range
  next : Option Nat
deriving DecidableEq

/-- The first call at or behind a position. -/
def cut? (bs : List UInt8) (pos : Nat) : Option Cut :=
  if pos < bs.length then
    (nameFrom? pos (bs.drop pos)).map fun name =>
      let close := Delimited.closeOf '(' ')' bs name.stop
      { name, body := ⟨name.stop + 1, close.getD bs.length⟩, next := close.map (· + 1) }
  else none

theorem lt_stop_of_nameFrom? {pos : Nat} {bs : List UInt8} {r : Range} (h : nameFrom? pos bs = some r) :
    pos < r.stop := by
  induction bs generalizing pos with
  | nil => cases h
  | cons b bs ih =>
    rw [nameFrom?] at h
    split at h
    · next hopens =>
      cases h
      have hstart : isNameStart (Char.ofUInt8 b) := (Bool.and_eq_true_iff.1 hopens).1
      have hchar : isNameChar (Char.ofUInt8 b) := isNameChar_of_isNameStart hstart
      simp only [List.takeWhile_cons, hchar, if_true]
      exact Nat.lt_add_of_pos_right (Nat.succ_pos _)
    · exact Nat.lt_of_succ_lt (ih h)

/-- Behind a call the search goes on at a later position of the text. -/
theorem lt_next_of_cut? {bs : List UInt8} {pos next : Nat} {cut : Cut} (h : cut? bs pos = some cut)
    (hnext : cut.next = some next) : pos < next ∧ next ≤ bs.length := by
  rw [cut?] at h
  split at h
  · obtain ⟨name, hname, rfl⟩ := Option.map_eq_some_iff.1 h
    obtain ⟨close, hclose, rfl⟩ := Option.map_eq_some_iff.1 hnext
    have hlt := lt_stop_of_nameFrom? hname
    have hbounds := Delimited.bounds_of_closeOf hclose
    omega
  · cases h

/-- The calls at or behind a position, in order. -/
def cutsFrom (bs : List UInt8) (pos : Nat) : List Cut :=
  match h : cut? bs pos with
  | none => []
  | some cut =>
    cut ::
      match hnext : cut.next with
      | none => []
      | some next =>
        have _hlt := lt_next_of_cut? h hnext
        cutsFrom bs next
termination_by bs.length - pos

def cuts (bs : List UInt8) : List Cut :=
  cutsFrom bs 0

theorem cutsFrom_of_eq_none {bs : List UInt8} {pos : Nat} (h : cut? bs pos = none) : cutsFrom bs pos = [] := by
  rw [cutsFrom]
  split
  · rfl
  · next hsome => cases h.symm.trans hsome

theorem cutsFrom_of_eq_some {bs : List UInt8} {pos : Nat} {cut : Cut} (h : cut? bs pos = some cut) :
    cutsFrom bs pos = cut :: (cut.next.map (cutsFrom bs)).getD [] := by
  rw [cutsFrom]
  split
  · next hnone => cases h.symm.trans hnone
  · next hsome =>
    cases h.symm.trans hsome
    split
    · next hnext => simp [hnext]
    · next hnext => simp [hnext]

theorem isNameChar_eq_false {c : Char} (h : 128 ≤ c.toNat) : isNameChar c = false := by
  have hval : 128 ≤ c.val := h
  have halphanum : c.isAlphanum = false := by
    unfold Char.isAlphanum Char.isAlpha Char.isUpper Char.isLower Char.isDigit
    grind
  rw [isNameChar, halphanum, Bool.false_or, beq_eq_false_iff_ne]
  exact ne_of_le_toNat h (by decide)

theorem isNameStart_eq_false {c : Char} (h : 128 ≤ c.toNat) : isNameStart c = false := by
  have hchar := isNameChar_eq_false h
  rw [isNameChar_eq, Bool.or_eq_false_iff] at hchar
  exact hchar.1

theorem opensAt_cons_eq_false {b : UInt8} (h : 128 ≤ (Char.ofUInt8 b).toNat) (bs : List UInt8) :
    opensAt (b :: bs) = false := by
  rw [opensAt, List.head?_cons, Option.any_some, isNameStart_eq_false h, Bool.false_and]

theorem nameFrom?_append_of_le_toNat {bs : List UInt8} (h : ∀ b ∈ bs, 128 ≤ (Char.ofUInt8 b).toNat) (pos : Nat)
    (rest : List UInt8) : nameFrom? pos (bs ++ rest) = nameFrom? (pos + bs.length) rest := by
  induction bs generalizing pos with
  | nil => rfl
  | cons b bs ih =>
    obtain ⟨hb, hbs⟩ := List.forall_mem_cons.1 h
    rw [List.cons_append, nameFrom?, opensAt_cons_eq_false hb, if_neg Bool.false_ne_true, ih hbs,
      List.length_cons, Nat.add_assoc, Nat.add_comm 1]

theorem nameFrom?_encode_cons {c : Char} {cs : List Char} (h : opensAt (encode (c :: cs)) = false) (pos : Nat) :
    nameFrom? pos (encode (c :: cs)) = nameFrom? (pos + c.utf8Size) (encode cs) := by
  rcases utf8EncodeChar_cases c with ⟨b, hb, -⟩ | ⟨-, hbytes⟩
  · rw [encode_cons, hb, List.singleton_append] at h
    rw [encode_cons, ← String.length_utf8EncodeChar, hb, List.singleton_append, nameFrom?, h,
      if_neg Bool.false_ne_true, List.length_singleton]
  · rw [encode_cons, nameFrom?_append_of_le_toNat hbytes, String.length_utf8EncodeChar]

theorem nameFrom?_of_opensAt {bs : List UInt8} (h : opensAt bs) (pos : Nat) :
    nameFrom? pos bs = some ⟨pos, pos + (bs.takeWhile (fun b => isNameChar (Char.ofUInt8 b))).length⟩ := by
  cases bs with
  | nil => cases h
  | cons b bs => rw [nameFrom?, if_pos h]

theorem opensAt_encode (cs : List Char) :
    opensAt (encode cs) = (cs.head?.any isNameStart && (cs.dropWhile isNameChar).head?.any (· == '(')) := by
  have hparen : ∀ c : Char, 128 ≤ c.toNat → (c == '(') = false :=
    fun c hc => beq_eq_false_iff_ne.2 (ne_of_le_toNat hc (by decide))
  rw [opensAt, dropWhile_encode fun _ => isNameChar_eq_false, any_head?_encode fun _ => isNameStart_eq_false,
    any_head?_encode hparen]

theorem opensAt_encode_cons {c : Char} {cs : List Char} :
    opensAt (encode (c :: cs)) ↔
      isNameStart c ∧ ∃ run rest, cs = run ++ '(' :: rest ∧ ∀ d ∈ run, isNameChar d := by
  rw [opensAt_encode, Bool.and_eq_true_iff, List.head?_cons, Option.any_some]
  refine and_congr_right fun hstart => ?_
  rw [List.dropWhile_cons_of_pos (isNameChar_of_isNameStart hstart)]
  constructor
  · intro hopen
    obtain ⟨d, hd, hparen⟩ := (Option.any_eq_true _ _).1 hopen
    obtain ⟨rest, hrest⟩ := List.head?_eq_some_iff.1 hd
    have hcs := cs.takeWhile_append_dropWhile (p := isNameChar)
    rw [hrest, eq_of_beq hparen] at hcs
    exact ⟨_, rest, hcs.symm, fun _ => List.mem_takeWhile_imp⟩
  · rintro ⟨run, rest, rfl, hrun⟩
    rw [List.dropWhile_append_of_pos hrun]
    rfl

/-- A name reaches up to its parenthesis. -/
theorem nameBefore_append {a run : List Char} {c : Char} (hc : isNameStart c) (hrun : ∀ d ∈ run, isNameChar d) :
    nameBefore (a ++ c :: run) = nameBefore a ++ c :: run := by
  have hall : ∀ d ∈ (c :: run).reverse, isNameChar d := by
    intro d hd
    rcases List.mem_cons.1 (List.mem_reverse.1 hd) with rfl | hd
    · exact isNameChar_of_isNameStart hc
    · exact hrun d hd
  have hbefore : runBefore (a ++ c :: run) = runBefore a ++ c :: run := by
    rw [runBefore, List.rtakeWhile, List.reverse_append, List.takeWhile_append_of_pos hall, List.reverse_append,
      List.reverse_reverse]
    rfl
  have hdigit : ¬c.isDigit := by simp [isDigit_eq_false_of_isNameStart hc]
  rw [nameBefore, nameBefore, hbefore, List.dropWhile_append]
  split
  · next hnil => rw [List.isEmpty_iff.1 hnil, List.nil_append, List.dropWhile_cons_of_neg hdigit]
  · rfl

theorem IsGap.ne_append {cs a run : List Char} {c : Char} (h : IsGap cs) (hc : isNameStart c)
    (hrun : ∀ d ∈ run, isNameChar d) (rest : List Char) : cs ≠ a ++ c :: (run ++ '(' :: rest) := by
  intro hcs
  rw [← List.cons_append, ← List.append_assoc] at hcs
  have hnil := nameBefore_eq_nil_iff.2 (h _ _ hcs)
  rw [nameBefore_append hc hrun] at hnil
  exact List.append_ne_nil_of_right_ne_nil _ (List.cons_ne_nil _ _) hnil

theorem IsGap.opensAt_eq_false {a b : List Char} {c : Char} (h : IsGap (a ++ c :: b)) :
    opensAt (encode (c :: b)) = false := by
  refine Bool.eq_false_iff.2 fun hopens => ?_
  obtain ⟨hc, run, rest, rfl, hrun⟩ := opensAt_encode_cons.1 hopens
  exact h.ne_append hc hrun rest rfl

/-- No call opens in the gap before a name. -/
theorem Layout.Opens.opensAt_eq_false {a b name : List Char} {c : Char} (h : Opens (a ++ c :: b) name)
    (rest : List Char) : opensAt (encode (c :: b ++ (name ++ '(' :: rest))) = false := by
  refine Bool.eq_false_iff.2 fun hopens => ?_
  rw [List.cons_append] at hopens
  obtain ⟨hc, run, rest', hcs, hrun⟩ := opensAt_encode_cons.1 hopens
  rw [← List.append_assoc] at hcs
  have hgap := h.isGap_append
  have hname := h.nameBefore_eq
  rw [List.append_assoc, List.cons_append] at hgap hname
  -- The run of the name characters from `c` on ends at the same parenthesis as the name.
  obtain ⟨hrun', -⟩ := eq_of_append_cons_eq hcs
    (fun u hu => hgap.ne_append hc hrun u (by rw [hu]))
    (fun u hu => by
      have hparen := hrun '(' (hu ▸ List.mem_append_right _ List.mem_cons_self)
      cases hparen)
  rw [nameBefore_append hc (hrun' ▸ hrun)] at hname
  have hlength := congrArg List.length hname
  simp only [List.length_append, List.length_cons] at hlength
  omega

theorem nameFrom?_append {gap rest : List Char}
    (h : ∀ a c b, gap = a ++ c :: b → opensAt (encode (c :: b ++ rest)) = false) (pos : Nat) :
    nameFrom? pos (encode (gap ++ rest)) = nameFrom? (pos + width gap) (encode rest) := by
  induction gap generalizing pos with
  | nil => rfl
  | cons c gap ih =>
    have hfirst : opensAt (encode (c :: (gap ++ rest))) = false := h [] c gap rfl
    have hothers : ∀ a d b, gap = a ++ d :: b → opensAt (encode (d :: b ++ rest)) = false := by
      rintro a d b rfl
      exact h (c :: a) d b rfl
    rw [List.cons_append, nameFrom?_encode_cons hfirst, ih hothers, width_cons, Nat.add_assoc]

theorem IsGap.nameFrom?_eq_none {gap : List Char} (h : IsGap gap) (pos : Nat) :
    nameFrom? pos (encode gap) = none := by
  have hnone : ∀ a c b, gap = a ++ c :: b → opensAt (encode (c :: b ++ [])) = false := by
    rintro a c b rfl
    rw [List.append_nil]
    exact h.opensAt_eq_false
  have hgap := nameFrom?_append hnone pos
  rwa [List.append_nil] at hgap

theorem Layout.Opens.nameFrom?_eq {gap name : List Char} (h : Opens gap name) (pos : Nat) (rest : List Char) :
    nameFrom? pos (encode (gap ++ (name ++ '(' :: rest))) =
      some ⟨pos + width gap, pos + width gap + width name⟩ := by
  have hnone : ∀ a c b, gap = a ++ c :: b → opensAt (encode (c :: b ++ (name ++ '(' :: rest))) = false := by
    rintro a c b rfl
    exact h.opensAt_eq_false rest
  have hopens : opensAt (encode (name ++ '(' :: rest)) := by
    have hname := h.isName
    cases name with
    | nil => exact absurd rfl h.nonempty
    | cons c run => exact opensAt_encode_cons.2 ⟨hname.1, run, rest, rfl, hname.2⟩
  have hrun : (name ++ '(' :: rest).takeWhile isNameChar = name := by
    rw [List.takeWhile_append_of_pos h.isName.isNameChar, List.takeWhile_cons_of_neg (by decide), List.append_nil]
  rw [nameFrom?_append hnone, nameFrom?_of_opensAt hopens,
    length_takeWhile_encode fun _ => isNameChar_eq_false, hrun]

theorem closing_append_of_isOpen {body : List Char} (h : IsOpen body) (rest : List Char) :
    Delimited.closing '(' ')' 0 (body ++ rest) =
      (Delimited.closing '(' ')' (body.count '(' - body.count ')') rest).map fun (inner, rest) =>
        (body ++ inner, rest) := by
  induction body using List.reverseRecOn generalizing rest with
  | nil => simp
  | append_singleton body c ih =>
    obtain ⟨hbody, hc⟩ := isOpen_concat.1 h
    have hle := hbody body (List.prefix_refl _)
    rw [List.append_assoc, List.singleton_append, ih hbody, List.count_append, List.count_append]
    by_cases hopen : c = '('
    · subst hopen
      have hmore : body.count '(' + 1 - body.count ')' = body.count '(' - body.count ')' + 1 := by omega
      simp [Delimited.closing, hmore, Function.comp_def]
    by_cases hclose : c = ')'
    · subst hclose
      have hlt := hc rfl
      obtain ⟨more, hmore⟩ : ∃ more, body.count '(' - body.count ')' = more + 1 :=
        ⟨body.count '(' - (body.count ')' + 1), by omega⟩
      have hless : body.count '(' - (body.count ')' + 1) = more := by omega
      simp [Delimited.closing, hmore, hless, Function.comp_def]
    · simp [Delimited.closing, hopen, hclose, Function.comp_def]

theorem closing_of_isOpen {body : List Char} (h : IsOpen body) : Delimited.closing '(' ')' 0 body = none := by
  have hclosing := closing_append_of_isOpen h []
  rwa [List.append_nil] at hclosing

theorem Balanced.closing_append {body : List Char} (h : Balanced body) (rest : List Char) :
    Delimited.closing '(' ')' 0 (body ++ ')' :: rest) = some (body, rest) := by
  have hmore : body.count '(' - body.count ')' = 0 := by
    have hcount := h.2
    omega
  rw [closing_append_of_isOpen h.1, hmore]
  simp [Delimited.closing]

/-- The call at a name, with `cs` behind its parenthesis. -/
theorem Layout.Opens.cut?_eq {gap name : List Char} (h : Opens gap name) (a cs : List Char) :
    cut? (encode (a ++ (gap ++ (name ++ '(' :: cs)))) (width a) =
      let start := width a + width gap + width name + 1
      let close := (Delimited.closing '(' ')' 0 cs).map fun (inner, _) => start + width inner
      some
        { name := ⟨width a + width gap, width a + width gap + width name⟩
          body := ⟨start, close.getD (start + width cs)⟩
          next := close.map (· + 1) } := by
  have hwidth : width (a ++ (gap ++ name)) = width a + width gap + width name := by
    rw [width_append, width_append, Nat.add_assoc]
  have hlength : (encode (a ++ (gap ++ (name ++ '(' :: cs)))).length =
      width a + width gap + width name + 1 + width cs := by
    have hparen : '('.utf8Size = 1 := rfl
    simp only [length_encode, width_append, width_cons, hparen, Nat.add_assoc]
  have hclose : Delimited.closeOf '(' ')' (encode (a ++ (gap ++ (name ++ '(' :: cs))))
      (width a + width gap + width name) = (Delimited.closing '(' ')' 0 cs).map fun (inner, _) =>
        width a + width gap + width name + 1 + width inner := by
    rw [← hwidth, ← List.append_assoc gap, ← List.append_assoc a]
    exact Delimited.closeOf_encode (by decide) (by decide) _ _
  rw [cut?, if_pos (by omega), drop_encode_append, h.nameFrom?_eq, Option.map_some]
  simp only [hclose, hlength]

/-- The ranges of a call cut out its name and its body. -/
def Cut.CutsOut (text : String) (cut : Cut) (call : Call) : Prop :=
  slice? text cut.name = some (String.ofList call.name) ∧ slice? text cut.body = some (String.ofList call.body)

theorem cutsOut_ofList (a gap name body rest : List Char) (next : Option Nat) :
    Cut.CutsOut (String.ofList (a ++ (gap ++ (name ++ '(' :: (body ++ rest)))))
      { name := ⟨width a + width gap, width a + width gap + width name⟩
        body := ⟨width a + width gap + width name + 1, width a + width gap + width name + 1 + width body⟩
        next } ⟨name, body⟩ := by
  have hname := slice?_ofList_append (a ++ gap) name ('(' :: (body ++ rest))
  have hbody := slice?_ofList_append (a ++ (gap ++ (name ++ ['(']))) body rest
  have hparen : '('.utf8Size = 1 := rfl
  simp only [List.append_assoc, List.singleton_append, width_append, width_cons, width_nil, hparen, Nat.add_zero,
    ← Nat.add_assoc] at hname hbody
  exact ⟨hname, hbody⟩

/-- Behind `a`, the cuts are those of the layout of the rest. -/
theorem Layout.Valid.cutsOut_cutsFrom {l : Layout} (h : l.Valid) (a : List Char) :
    List.Forall₂ (Cut.CutsOut (String.ofList (a ++ l.text))) (cutsFrom (encode (a ++ l.text)) (width a)) l.calls := by
  induction l generalizing a with
  | stop gap =>
    have hnone : cut? (encode (a ++ gap)) (width a) = none := by
      rw [cut?, drop_encode_append, IsGap.nameFrom?_eq_none h, Option.map_none, ite_self]
    rw [text, cutsFrom_of_eq_none hnone]
    exact .nil
  | unclosed gap name body =>
    obtain ⟨hopens, hbody⟩ := h
    have hcut := hopens.cut?_eq a body
    rw [closing_of_isOpen hbody] at hcut
    have hcuts := cutsOut_ofList a gap name body [] none
    rw [List.append_nil] at hcuts
    rw [text, List.append_assoc, cutsFrom_of_eq_some hcut]
    exact .cons hcuts .nil
  | call gap name body rest ih =>
    obtain ⟨hopens, hbody, hrest⟩ := h
    have hcut := hopens.cut?_eq a (body ++ ')' :: rest.text)
    rw [hbody.closing_append] at hcut
    have hnext := ih hrest (a ++ (gap ++ (name ++ '(' :: (body ++ [')']))))
    have hparen : '('.utf8Size = 1 ∧ ')'.utf8Size = 1 := ⟨rfl, rfl⟩
    simp only [List.append_assoc, List.cons_append, List.nil_append, width_append, width_cons, width_nil, hparen,
      Nat.add_zero, ← Nat.add_assoc] at hnext
    rw [text, List.append_assoc, cutsFrom_of_eq_some hcut]
    exact .cons (cutsOut_ofList ..) hnext

/-- The calls that are found by positions are those of the characters. -/
theorem cutsOut_cuts (text : String) :
    List.Forall₂ (Cut.CutsOut text) (cuts (bytes text)) (all text.toList) := by
  obtain ⟨l, hvalid, htext⟩ := Layout.exists_valid text.toList
  have hcuts := hvalid.cutsOut_cutsFrom []
  rw [List.nil_append, htext, String.ofList_toList, ← bytes_eq] at hcuts
  rw [← htext, hvalid.all_text]
  exact hcuts

end LadderLogic.Call
