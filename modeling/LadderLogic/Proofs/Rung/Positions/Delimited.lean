import LadderLogic.Proofs.Rung.Nesting
import LadderLogic.Proofs.Text.Bytes

/-! Brackets and commas by their byte positions. A byte counts only if it reads as an ASCII character, so that
the search passes over all other characters as a whole. -/
namespace LadderLogic.Delimited
open Text

/-- The position of the bracket that brings the count of open ones to zero, when the bytes from
position `pos` on are read with `depth` brackets open. -/
def closeFrom (opener closer : Char) (depth pos : Nat) : List UInt8 → Option Nat
  | [] => none
  | b :: bs =>
    if Char.ofUInt8 b == opener then closeFrom opener closer (depth + 1) (pos + 1) bs
    else if Char.ofUInt8 b == closer then
      if depth - 1 == 0 then some pos else closeFrom opener closer (depth - 1) (pos + 1) bs
    else closeFrom opener closer depth (pos + 1) bs

/-- The position of the bracket that closes the one at `pos`. -/
def closeOf (opener closer : Char) (bs : List UInt8) (pos : Nat) : Option Nat :=
  closeFrom opener closer 0 pos (bs.drop pos)

/-- The ranges between the commas at depth zero, when the bytes from position `pos` on are read in a
part that starts at `start`. -/
def cutsFrom (depth start pos : Nat) : List UInt8 → List Range
  | [] => [⟨start, pos⟩]
  | b :: bs =>
    if Char.ofUInt8 b == ',' && depth == 0 then ⟨start, pos⟩ :: cutsFrom 0 (pos + 1) (pos + 1) bs
    else cutsFrom (depthAfter depth (Char.ofUInt8 b)) start (pos + 1) bs

/-- The ranges between the commas that stand outside parentheses and square brackets. -/
def cuts (bs : List UInt8) : List Range :=
  cutsFrom 0 0 0 bs

theorem bounds_of_closeFrom {opener closer : Char} {depth pos p : Nat} {bs : List UInt8}
    (h : closeFrom opener closer depth pos bs = some p) : pos ≤ p ∧ p < pos + bs.length := by
  induction bs generalizing depth pos with
  | nil => cases h
  | cons b bs ih =>
    have hon : ∀ depth', closeFrom opener closer depth' (pos + 1) bs = some p →
        pos ≤ p ∧ p < pos + (b :: bs).length := by
      intro depth' hrest
      have hbounds := ih hrest
      rw [List.length_cons]
      omega
    rw [closeFrom] at h
    split at h
    · exact hon _ h
    · split at h
      · split at h
        · cases h
          exact ⟨Nat.le_refl _, Nat.lt_add_of_pos_right (Nat.succ_pos _)⟩
        · exact hon _ h
      · exact hon _ h

theorem bounds_of_closeOf {opener closer : Char} {bs : List UInt8} {pos p : Nat}
    (h : closeOf opener closer bs pos = some p) : pos ≤ p ∧ p < bs.length := by
  have hbounds := bounds_of_closeFrom h
  rw [List.length_drop] at hbounds
  omega

theorem depthAfter_of_le_toNat {c : Char} (h : 128 ≤ c.toNat) (depth : Nat) : depthAfter depth c = depth := by
  have hother : ∀ d : Char, d.toNat < 128 → c ≠ d := fun _ => ne_of_le_toNat h
  simp [depthAfter, hother]

section

-- The bytes `bs` are no ASCII characters.
variable {bs : List UInt8} (h : ∀ b ∈ bs, 128 ≤ (Char.ofUInt8 b).toNat) (rest : List UInt8)
include h

theorem closeFrom_append {opener closer : Char} (hopener : opener.toNat < 128) (hcloser : closer.toNat < 128)
    (depth pos : Nat) :
    closeFrom opener closer depth pos (bs ++ rest) = closeFrom opener closer depth (pos + bs.length) rest := by
  induction bs generalizing pos with
  | nil => rfl
  | cons b bs ih =>
    obtain ⟨hb, hbs⟩ := List.forall_mem_cons.1 h
    rw [List.cons_append, closeFrom, beq_eq_false_iff_ne.2 (ne_of_le_toNat hb hopener),
      beq_eq_false_iff_ne.2 (ne_of_le_toNat hb hcloser), if_neg Bool.false_ne_true, if_neg Bool.false_ne_true,
      ih hbs, List.length_cons, Nat.add_assoc, Nat.add_comm 1]

theorem cutsFrom_append (depth start pos : Nat) :
    cutsFrom depth start pos (bs ++ rest) = cutsFrom depth start (pos + bs.length) rest := by
  induction bs generalizing pos with
  | nil => rfl
  | cons b bs ih =>
    obtain ⟨hb, hbs⟩ := List.forall_mem_cons.1 h
    rw [List.cons_append, cutsFrom, depthAfter_of_le_toNat hb,
      beq_eq_false_iff_ne.2 (ne_of_le_toNat hb (by decide)), Bool.false_and, if_neg Bool.false_ne_true, ih hbs,
      List.length_cons, Nat.add_assoc, Nat.add_comm 1]

end

/-- The search by positions finds the bracket that the search by characters finds. -/
theorem closeFrom_encode {opener closer : Char} (hopener : opener.toNat < 128) (hcloser : closer.toNat < 128)
    (more pos : Nat) (cs : List Char) :
    closeFrom opener closer (more + 1) pos (encode cs) =
      (closing opener closer more cs).map fun (inner, _) => pos + width inner := by
  induction cs generalizing more pos with
  | nil => rfl
  | cons c cs ih =>
    have hon : ∀ more', closeFrom opener closer (more' + 1) (pos + c.utf8Size) (encode cs) =
        ((closing opener closer more' cs).map fun (inner, rest) => (c :: inner, rest)).map
          fun (inner, _) => pos + width inner := by
      intro more'
      rw [ih, Option.map_map]
      simp only [Function.comp_def, width_cons, Nat.add_assoc]
    rcases utf8EncodeChar_cases c with ⟨b, hb, rfl⟩ | ⟨hc, hbytes⟩
    · rw [utf8Size_of_utf8EncodeChar hb] at hon
      rw [encode_cons, hb, List.singleton_append]
      simp only [closeFrom, closing]
      split
      · exact hon (more + 1)
      · split
        · cases more with
          | zero => rfl
          | succ more => exact hon more
        · exact hon more
    · have hclosing : closing opener closer more (c :: cs) =
          (closing opener closer more cs).map fun (inner, rest) => (c :: inner, rest) := by
        simp [closing, ne_of_le_toNat hc hopener, ne_of_le_toNat hc hcloser]
      rw [encode_cons, closeFrom_append hbytes _ hopener hcloser, String.length_utf8EncodeChar, hon, hclosing]

theorem closeOf_encode {opener closer : Char} (hopener : opener.toNat < 128) (hcloser : closer.toNat < 128)
    (a cs : List Char) :
    closeOf opener closer (encode (a ++ opener :: cs)) (width a) =
      (closing opener closer 0 cs).map fun (inner, _) => width a + 1 + width inner := by
  rw [closeOf, drop_encode_append]
  rcases utf8EncodeChar_cases opener with ⟨b, hb, hchar⟩ | ⟨hforeign, -⟩
  · rw [encode_cons, hb, List.singleton_append, closeFrom, hchar, if_pos (beq_self_eq_true _),
      closeFrom_encode hopener hcloser]
  · omega

theorem cutsFrom_encode_cons (depth start pos : Nat) (c : Char) (cs : List Char) :
    cutsFrom depth start pos (encode (c :: cs)) =
      if c == ',' && depth == 0 then ⟨start, pos⟩ :: cutsFrom 0 (pos + 1) (pos + 1) (encode cs)
      else cutsFrom (depthAfter depth c) start (pos + c.utf8Size) (encode cs) := by
  rcases utf8EncodeChar_cases c with ⟨b, hb, rfl⟩ | ⟨hc, hbytes⟩
  · rw [encode_cons, hb, List.singleton_append, cutsFrom, utf8Size_of_utf8EncodeChar hb]
  · rw [encode_cons, cutsFrom_append hbytes, String.length_utf8EncodeChar, depthAfter_of_le_toNat hc,
      beq_eq_false_iff_ne.2 (ne_of_le_toNat hc (by decide)), Bool.false_and, if_neg Bool.false_ne_true]

/-- Behind `a`, and with `part` read, the ranges cut out the parts of the rest. -/
theorem slice?_cutsFrom (depth : Nat) (a part cs : List Char) :
    ∃ first parts, splitFrom depth cs = first :: parts ∧
      List.Forall₂ (fun r p => slice? (String.ofList (a ++ (part ++ cs))) r = some (String.ofList p))
        (cutsFrom depth (width a) (width a + width part) (encode cs)) ((part ++ first) :: parts) := by
  induction cs generalizing depth a part with
  | nil => exact ⟨[], [], rfl, .cons (by rw [List.append_nil]; simpa using slice?_ofList_append a part []) .nil⟩
  | cons c cs ih =>
    rw [cutsFrom_encode_cons, splitFrom]
    split
    · next hcomma =>
      obtain rfl : c = ',' := eq_of_beq (Bool.and_eq_true_iff.1 hcomma).1
      obtain ⟨first, parts, hsplit, hall⟩ := ih 0 (a ++ (part ++ [','])) []
      have hwidth : width (a ++ (part ++ [','])) = width a + width part + 1 := by
        simp only [width_append, Nat.add_assoc]
        rfl
      refine ⟨[], first :: parts, by rw [hsplit], ?_⟩
      simp only [hwidth, width_nil, Nat.add_zero, List.nil_append, List.append_assoc, List.singleton_append] at hall
      rw [List.append_nil]
      exact .cons (slice?_ofList_append a part _) hall
    · obtain ⟨first, parts, hsplit, hall⟩ := ih (depthAfter depth c) a (part ++ [c])
      refine ⟨c :: first, parts, by rw [hsplit, extend], ?_⟩
      simpa only [width_append, width_cons, width_nil, Nat.add_zero, List.append_assoc, List.singleton_append,
        Nat.add_assoc] using hall

/-- The ranges between the outer commas of a text cut out its parts. -/
theorem slice?_cuts (text : String) :
    List.Forall₂ (fun r part => slice? text r = some (String.ofList part))
      (cuts (bytes text)) (splitTopLevel text.toList) := by
  obtain ⟨first, parts, hsplit, hall⟩ := slice?_cutsFrom 0 [] [] text.toList
  rw [splitTopLevel, hsplit]
  simpa [bytes_eq, cuts] using hall

end LadderLogic.Delimited
