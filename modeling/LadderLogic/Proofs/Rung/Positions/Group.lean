import LadderLogic.Proofs.Rung.Circuit
import LadderLogic.Proofs.Rung.Positions.Call

/-! The group of a rung by its byte positions. -/
namespace LadderLogic.Circuit
open Text Delimited

/-- The positions of a pair of square brackets. A pair that is not closed reaches to the end. -/
structure Brackets where
  opening : Nat
  close : Option Nat
deriving DecidableEq

namespace Brackets

/-- The range before the brackets. -/
def before (g : Brackets) : Range :=
  ⟨0, g.opening⟩

/-- The range between the brackets in a text of `size` bytes. -/
def inner (g : Brackets) (size : Nat) : Range :=
  ⟨g.opening + 1, g.close.getD size⟩

/-- The range behind the brackets in a text of `size` bytes. -/
def after? (g : Brackets) (size : Nat) : Option Range :=
  g.close.map fun close => ⟨close + 1, size⟩

end Brackets

/-- Square brackets around these bytes make a group rather than an index. -/
def isGroupBytes (bs : List UInt8) : Bool :=
  (Call.nameFrom? 0 bs).isSome || hasCommaFrom 0 (bs.map Char.ofUInt8)

def Brackets.isGroup (bs : List UInt8) (g : Brackets) : Bool :=
  isGroupBytes ((bs.take (g.inner bs.length).stop).drop (g.inner bs.length).start)

/-- One step of the search for the group. -/
structure Step where
  /-- The brackets that the step looks into. -/
  looked : Option Brackets
  /-- The open parentheses and the position of the next step, if there is one. -/
  next : Option (Nat × Nat)

/-- The step at a character inside `depth` parentheses. -/
def Step.on (bs : List UInt8) (depth pos : Nat) (c : Char) : Step :=
  if c == '(' then ⟨none, some (depth + 1, pos + 1)⟩
  else if c == ')' then ⟨none, some (depth - 1, pos + 1)⟩
  else if c == '[' && depth == 0 then
    let g : Brackets := ⟨pos, closeOf '[' ']' bs pos⟩
    ⟨some g, if g.isGroup bs then none else g.close.map fun close => (depth, close + 1)⟩
  else ⟨none, some (depth, pos + 1)⟩

/-- The step at a position inside `depth` parentheses. There is none at the end. -/
def step? (bs : List UInt8) (depth pos : Nat) : Option Step :=
  bs[pos]?.map fun b => Step.on bs depth pos (Char.ofUInt8 b)

theorem Step.next_on {bs : List UInt8} {depth pos depth' pos' : Nat} {c : Char}
    (h : (Step.on bs depth pos c).next = some (depth', pos')) :
    pos' = pos + 1 ∨ ∃ close, closeOf '[' ']' bs pos = some close ∧ pos' = close + 1 := by
  unfold Step.on at h
  split at h
  · cases h
    exact Or.inl rfl
  · split at h
    · cases h
      exact Or.inl rfl
    · split at h
      · dsimp only at h
        split at h
        · cases h
        · obtain ⟨close, hclose, heq⟩ := Option.map_eq_some_iff.1 h
          cases heq
          exact Or.inr ⟨close, hclose, rfl⟩
      · cases h
        exact Or.inl rfl

/-- The search for the group goes on at a later position of the text. -/
theorem lt_next_of_step? {bs : List UInt8} {depth pos depth' pos' : Nat} {step : Step}
    (h : step? bs depth pos = some step) (hnext : step.next = some (depth', pos')) :
    pos < pos' ∧ pos' ≤ bs.length := by
  obtain ⟨b, hb, rfl⟩ := Option.map_eq_some_iff.1 h
  obtain ⟨hlt, -⟩ := List.getElem?_eq_some_iff.1 hb
  rcases Step.next_on hnext with rfl | ⟨close, hclose, rfl⟩
  · exact ⟨Nat.lt_succ_self pos, hlt⟩
  · have hbounds := bounds_of_closeOf hclose
    omega

/-- The brackets that the search looks into from a position on. -/
def lookedFrom (bs : List UInt8) (depth pos : Nat) : List Brackets :=
  match h : step? bs depth pos with
  | none => []
  | some step =>
    step.looked.toList ++
      match hnext : step.next with
      | none => []
      | some (depth', pos') =>
        have _hlt := lt_next_of_step? h hnext
        lookedFrom bs depth' pos'
termination_by bs.length - pos

/-- The brackets that the search for the group looks into, up to those of the group. -/
def looked (bs : List UInt8) : List Brackets :=
  lookedFrom bs 0 0

/-- The brackets of the group. -/
def brackets? (bs : List UInt8) : Option Brackets :=
  (looked bs).find? (·.isGroup bs)

theorem lookedFrom_of_eq_none {bs : List UInt8} {depth pos : Nat} (h : step? bs depth pos = none) :
    lookedFrom bs depth pos = [] := by
  rw [lookedFrom]
  split
  · rfl
  · next hsome => cases h.symm.trans hsome

theorem lookedFrom_of_eq_some {bs : List UInt8} {depth pos : Nat} {step : Step} (h : step? bs depth pos = some step) :
    lookedFrom bs depth pos =
      step.looked.toList ++ (step.next.map fun (depth', pos') => lookedFrom bs depth' pos').getD [] := by
  rw [lookedFrom]
  split
  · next hnone => cases h.symm.trans hnone
  · next hsome =>
    cases h.symm.trans hsome
    split
    · next hnext => simp [hnext]
    · next hnext => simp [hnext]

theorem hasCommaFrom_append_of_le_toNat {cs : List Char} (h : ∀ c ∈ cs, 128 ≤ c.toNat) (depth : Nat)
    (rest : List Char) : hasCommaFrom depth (cs ++ rest) = hasCommaFrom depth rest := by
  induction cs with
  | nil => rfl
  | cons c cs ih =>
    obtain ⟨hc, hcs⟩ := List.forall_mem_cons.1 h
    have hother : ∀ d : Char, d.toNat < 128 → c ≠ d := fun _ => ne_of_le_toNat hc
    simp [hasCommaFrom, hother, ih hcs]

theorem hasCommaFrom_encode (depth : Nat) (cs : List Char) :
    hasCommaFrom depth ((encode cs).map Char.ofUInt8) = hasCommaFrom depth cs := by
  induction cs generalizing depth with
  | nil => rfl
  | cons c cs ih =>
    rcases utf8EncodeChar_cases c with ⟨b, hb, rfl⟩ | ⟨hc, hbytes⟩
    · rw [encode_cons, hb, List.singleton_append, List.map_cons]
      simp only [hasCommaFrom, ih]
    · have hforeign : ∀ d ∈ (String.utf8EncodeChar c).map Char.ofUInt8, 128 ≤ d.toNat := by
        intro d hd
        obtain ⟨b, hb, rfl⟩ := List.mem_map.1 hd
        exact hbytes b hb
      have hchar : ∀ d ∈ [c], 128 ≤ d.toNat := by simpa using hc
      rw [encode_cons, List.map_append, hasCommaFrom_append_of_le_toNat hforeign, ih, ← List.singleton_append,
        hasCommaFrom_append_of_le_toNat hchar]

theorem isSome_nameFrom?_encode (pos : Nat) (cs : List Char) :
    (Call.nameFrom? pos (encode cs)).isSome = !(Call.all cs).isEmpty := by
  obtain ⟨l, hvalid, rfl⟩ := Call.Layout.exists_valid cs
  rw [hvalid.all_text]
  cases l with
  | stop gap =>
    rw [Call.Layout.text, Call.IsGap.nameFrom?_eq_none hvalid]
    rfl
  | unclosed gap name body =>
    rw [Call.Layout.text, List.append_assoc, hvalid.1.nameFrom?_eq]
    rfl
  | call gap name body rest =>
    rw [Call.Layout.text, List.append_assoc, hvalid.1.nameFrom?_eq]
    rfl

theorem isGroupBytes_encode (cs : List Char) : isGroupBytes (encode cs) = isGroup cs := by
  rw [isGroupBytes, isSome_nameFrom?_encode, hasCommaFrom_encode, isGroup]

/-- Brackets stand around the middle part of a text. -/
inductive Brackets.Splits : List Char → Brackets → Split → Prop
  | closed (a inner rest : List Char) :
    Splits (a ++ '[' :: (inner ++ ']' :: rest)) ⟨width a, some (width a + 1 + width inner)⟩ ⟨a, inner, rest⟩
  | unclosed (a inner : List Char) : Splits (a ++ '[' :: inner) ⟨width a, none⟩ ⟨a, inner, []⟩

namespace Brackets.Splits

variable {cs : List Char} {g : Brackets} {x : Split} (h : g.Splits cs x)
include h

theorem slice?_before : slice? (String.ofList cs) g.before = some (String.ofList x.before) := by
  cases h with
  | closed a inner rest => simpa [before] using slice?_ofList_append [] a ('[' :: (inner ++ ']' :: rest))
  | unclosed a inner => simpa [before] using slice?_ofList_append [] a ('[' :: inner)

theorem slice?_inner : slice? (String.ofList cs) (g.inner (width cs)) = some (String.ofList x.group) := by
  have hbracket : '['.utf8Size = 1 := rfl
  cases h with
  | closed a inner rest =>
    simpa [Brackets.inner, hbracket] using slice?_ofList_append (a ++ ['[']) inner (']' :: rest)
  | unclosed a inner =>
    simpa [Brackets.inner, hbracket, Nat.add_assoc] using slice?_ofList_append (a ++ ['[']) inner []

theorem slice?_after : (g.after? (width cs)).elim (some "") (slice? (String.ofList cs)) =
    some (String.ofList x.after) := by
  have hbrackets : '['.utf8Size = 1 ∧ ']'.utf8Size = 1 := ⟨rfl, rfl⟩
  cases h with
  | closed a inner rest =>
    simpa [after?, hbrackets, Nat.add_assoc] using slice?_ofList_append (a ++ ('[' :: (inner ++ [']']))) rest []
  | unclosed a inner => rfl

theorem isGroup_encode : g.isGroup (encode cs) = Circuit.isGroup x.group := by
  have hbracket : '['.utf8Size = 1 := rfl
  have hbytes : ((encode cs).take (g.inner (encode cs).length).stop).drop (g.inner (encode cs).length).start =
      encode x.group := by
    cases h with
    | closed a inner rest =>
      have hpart := drop_take_encode_append (a ++ ['[']) inner (']' :: rest)
      simpa [Brackets.inner, hbracket] using hpart
    | unclosed a inner =>
      have hpart := drop_take_encode_append (a ++ ['[']) inner []
      simpa [Brackets.inner, hbracket, Nat.add_assoc] using hpart
  rw [Brackets.isGroup, hbytes, isGroupBytes_encode]

end Brackets.Splits

/-- In an index, the searches for its closing bracket and for the group keep step. -/
theorem index_cons_cases (more : Nat) (c : Char) :
    (c = ']' ∧ ∀ cs, closing '[' ']' more (c :: cs) = some ([], cs) ∧
        splitFrom (.index more) (c :: cs) = (splitFrom (.line 0) cs).map (extend c)) ∨
      ∃ more', ∀ cs, closing '[' ']' more (c :: cs) =
          (closing '[' ']' more' cs).map (fun (inner, rest) => (c :: inner, rest)) ∧
        splitFrom (.index more) (c :: cs) = (splitFrom (.index more') cs).map (extend c) := by
  simp only [closing, splitFrom]
  split
  · exact Or.inr ⟨more + 1, fun _ => ⟨rfl, rfl⟩⟩
  · split
    · next hclose =>
      cases more with
      | zero => exact Or.inl ⟨eq_of_beq hclose, fun _ => ⟨rfl, rfl⟩⟩
      | succ more => exact Or.inr ⟨more, fun _ => ⟨rfl, rfl⟩⟩
    · exact Or.inr ⟨more, fun _ => ⟨rfl, rfl⟩⟩

/-- Behind an index the search goes on at its closing bracket. -/
theorem splitFrom_index_of_closing {more : Nat} {cs inner rest : List Char}
    (h : closing '[' ']' more cs = some (inner, rest)) :
    splitFrom (.index more) cs =
      (splitFrom (.line 0) rest).map fun x => { x with before := inner ++ ']' :: x.before } := by
  induction cs generalizing more inner with
  | nil => cases h
  | cons c cs ih =>
    rcases index_cons_cases more c with ⟨rfl, hend⟩ | ⟨more', hon⟩
    · obtain ⟨hclosing, hsplit⟩ := hend cs
      cases hclosing.symm.trans h
      rw [hsplit]
      rfl
    · obtain ⟨hclosing, hsplit⟩ := hon cs
      obtain ⟨⟨inner', rest'⟩, hclosing', heq⟩ := Option.map_eq_some_iff.1 (hclosing.symm.trans h)
      cases heq
      rw [hsplit, ih hclosing', Option.map_map]
      rfl

theorem exists_byte {c : Char} (hc : c.toNat < 128) (a cs : List Char) :
    ∃ b, (encode (a ++ c :: cs))[width a]? = some b ∧ Char.ofUInt8 b = c := by
  rcases utf8EncodeChar_cases c with ⟨b, hb, hchar⟩ | ⟨hforeign, -⟩
  · refine ⟨b, ?_, hchar⟩
    rw [encode_append, encode_cons, hb, ← length_encode a, List.getElem?_append_right (Nat.le_refl _), Nat.sub_self]
    rfl
  · omega

theorem step?_encode {c : Char} (hc : c.toNat < 128) (a cs : List Char) (depth : Nat) :
    step? (encode (a ++ c :: cs)) depth (width a) = some (.on (encode (a ++ c :: cs)) depth (width a) c) := by
  obtain ⟨b, hb, hchar⟩ := exists_byte hc a cs
  rw [step?, hb, Option.map_some, hchar]

/-- A character that is no parenthesis and opens no brackets. -/
def IsPassed (depth : Nat) (c : Char) : Prop :=
  c ≠ '(' ∧ c ≠ ')' ∧ (c = '[' → depth ≠ 0)

theorem Step.on_of_isPassed {depth : Nat} {c : Char} (h : IsPassed depth c) (bs : List UInt8) (pos : Nat) :
    Step.on bs depth pos c = ⟨none, some (depth, pos + 1)⟩ := by
  obtain ⟨hopen, hclose, hbracket⟩ := h
  have hnot : (c == '[' && depth == 0) = false := by simpa using hbracket
  simp [Step.on, hopen, hclose, hnot]

theorem IsPassed.ofUInt8 {depth : Nat} {c : Char} (h : IsPassed depth c) :
    ∀ b ∈ String.utf8EncodeChar c, IsPassed depth (Char.ofUInt8 b) := by
  intro b hb
  rcases utf8EncodeChar_cases c with ⟨b', hcode, rfl⟩ | ⟨-, hbytes⟩
  · rw [hcode, List.mem_singleton] at hb
    exact hb ▸ h
  · have hother : ∀ d : Char, d.toNat < 128 → Char.ofUInt8 b ≠ d := fun _ => ne_of_le_toNat (hbytes b hb)
    exact ⟨hother '(' (by decide), hother ')' (by decide), fun hbracket => absurd hbracket (hother '[' (by decide))⟩

theorem lookedFrom_append {depth : Nat} {bs : List UInt8} (h : ∀ b ∈ bs, IsPassed depth (Char.ofUInt8 b))
    (a rest : List UInt8) :
    lookedFrom (a ++ (bs ++ rest)) depth a.length = lookedFrom (a ++ (bs ++ rest)) depth (a.length + bs.length) := by
  induction bs generalizing a with
  | nil => rfl
  | cons b bs ih =>
    obtain ⟨hb, hbs⟩ := List.forall_mem_cons.1 h
    have hstep : step? (a ++ (b :: bs ++ rest)) depth a.length = some ⟨none, some (depth, a.length + 1)⟩ := by
      rw [step?, List.getElem?_append_right (Nat.le_refl _), Nat.sub_self]
      exact congrArg some (Step.on_of_isPassed hb _ _)
    have hnext := ih hbs (a ++ [b])
    rw [List.append_assoc, List.singleton_append, List.length_append, List.length_singleton] at hnext
    rw [lookedFrom_of_eq_some hstep, List.length_cons, Nat.add_comm bs.length, ← Nat.add_assoc]
    exact hnext

theorem lookedFrom_encode_of_isPassed {depth : Nat} {c : Char} (h : IsPassed depth c) (a cs : List Char) :
    lookedFrom (encode (a ++ c :: cs)) depth (width a) =
      lookedFrom (encode (a ++ c :: cs)) depth (width (a ++ [c])) := by
  have hskip := lookedFrom_append h.ofUInt8 (encode a) (encode cs)
  rw [← encode_cons, ← encode_append, length_encode, String.length_utf8EncodeChar] at hskip
  rw [hskip, width_append, width_cons, width_nil, Nat.add_zero]

/-- Brackets behind `a` that the search looks into, and the split at the group if it is among them. -/
def Finds (a cs : List Char) (gs : List Brackets) (x : Option Split) : Prop :=
  (∀ g ∈ gs, ∃ y, g.Splits (a ++ cs) y) ∧
    Option.Rel (fun g y => g.Splits (a ++ cs) { y with before := a ++ y.before })
      (gs.find? (·.isGroup (encode (a ++ cs)))) x

theorem Finds.of_append {a b cs : List Char} {gs : List Brackets} {x : Option Split} (h : Finds (a ++ b) cs gs x) :
    Finds a (b ++ cs) gs (x.map fun y => { y with before := b ++ y.before }) := by
  unfold Finds at h ⊢
  rw [List.append_assoc] at h
  obtain ⟨hall, hgroup⟩ := h
  refine ⟨hall, ?_⟩
  generalize gs.find? (·.isGroup (encode (a ++ (b ++ cs)))) = found at hgroup ⊢
  cases hgroup with
  | none => exact .none
  | some hsplits =>
    rw [List.append_assoc] at hsplits
    exact .some hsplits

/-- The search looks into one pair of brackets, which is the group or the last one. -/
theorem Finds.singleton {a cs : List Char} {g : Brackets} {y : Split}
    (h : g.Splits (a ++ cs) { y with before := a ++ y.before }) :
    Finds a cs [g] (if isGroup y.group then some y else none) := by
  refine ⟨fun g' hg' => ⟨_, List.mem_singleton.1 hg' ▸ h⟩, ?_⟩
  rw [List.find?_singleton, h.isGroup_encode]
  split
  · exact .some h
  · exact .none

theorem Finds.cons_index {a cs : List Char} {g : Brackets} {gs : List Brackets} {x : Option Split} {y : Split}
    (h : Finds a cs gs x) (hg : g.Splits (a ++ cs) y) (hindex : ¬isGroup y.group) : Finds a cs (g :: gs) x := by
  refine ⟨List.forall_mem_cons.2 ⟨⟨y, hg⟩, h.1⟩, ?_⟩
  rw [List.find?_cons_of_neg (by rwa [hg.isGroup_encode])]
  exact h.2

/-- The search goes on behind a character of the line. -/
theorem Finds.of_line {depth depth' : Nat} {c : Char} {a cs : List Char}
    (hlooked : lookedFrom (encode (a ++ c :: cs)) depth (width a) =
      lookedFrom (encode (a ++ c :: cs)) depth' (width (a ++ [c])))
    (hline : splitFrom (.line depth) (c :: cs) = (splitFrom (.line depth') cs).map (extend c))
    (h : Finds (a ++ [c]) cs (lookedFrom (encode (a ++ [c] ++ cs)) depth' (width (a ++ [c])))
      (splitFrom (.line depth') cs)) :
    Finds a (c :: cs) (lookedFrom (encode (a ++ c :: cs)) depth (width a)) (splitFrom (.line depth) (c :: cs)) := by
  have hfinds := h.of_append
  rw [List.append_assoc, List.singleton_append] at hfinds
  rw [hlooked, hline]
  exact hfinds

theorem splitFrom_of_isPassed {depth : Nat} {c : Char} (h : IsPassed depth c) (cs : List Char) :
    splitFrom (.line depth) (c :: cs) = (splitFrom (.line depth) cs).map (extend c) := by
  obtain ⟨hopen, hclose, hbracket⟩ := h
  have hnot : (c == '[' && depth == 0) = false := by simpa using hbracket
  simp [splitFrom, hopen, hclose, hnot]

/-- The search looks into the brackets that open on the line, and goes on behind an index. -/
theorem lookedFrom_encode_bracket (a cs : List Char) {close : Option Nat}
    (h : (closing '[' ']' 0 cs).map (fun (inner, _) => width a + 1 + width inner) = close) :
    lookedFrom (encode (a ++ '[' :: cs)) 0 (width a) =
      ⟨width a, close⟩ :: if Brackets.isGroup (encode (a ++ '[' :: cs)) ⟨width a, close⟩ then []
        else (close.map fun close => lookedFrom (encode (a ++ '[' :: cs)) 0 (close + 1)).getD [] := by
  have hclose := closeOf_encode (by decide : '['.toNat < 128) (by decide : ']'.toNat < 128) a cs
  have hstep : step? (encode (a ++ '[' :: cs)) 0 (width a) = some ⟨some ⟨width a, close⟩,
      if Brackets.isGroup (encode (a ++ '[' :: cs)) ⟨width a, close⟩ then none
      else close.map fun close => (0, close + 1)⟩ := by
    rw [step?_encode (by decide), Step.on, hclose, h]
    rfl
  rw [lookedFrom_of_eq_some hstep]
  split
  · rfl
  · rw [Option.map_map]
    rfl

theorem finds_lookedFrom_bracket {a cs : List Char}
    (h : ∀ inner rest, closing '[' ']' 0 cs = some (inner, rest) →
      Finds (a ++ '[' :: (inner ++ [']'])) rest
        (lookedFrom (encode (a ++ '[' :: (inner ++ [']']) ++ rest)) 0 (width (a ++ '[' :: (inner ++ [']']))))
        (splitFrom (.line 0) rest)) :
    Finds a ('[' :: cs) (lookedFrom (encode (a ++ '[' :: cs)) 0 (width a)) (splitFrom (.line 0) ('[' :: cs)) := by
  cases hclosing : closing '[' ']' 0 cs with
  | none =>
    have hline : splitFrom (.line 0) ('[' :: cs) = if isGroup cs then some ⟨[], cs, []⟩ else none := by
      simp [splitFrom, hclosing]
    have hlooked := lookedFrom_encode_bracket a cs (congrArg _ hclosing)
    rw [Option.map_none, Option.map_none, Option.getD_none, ite_self] at hlooked
    rw [hlooked, hline]
    exact Finds.singleton (y := ⟨[], cs, []⟩) (by simpa using Brackets.Splits.unclosed a cs)
  | some pair =>
    obtain ⟨inner, rest⟩ := pair
    have hline : splitFrom (.line 0) ('[' :: cs) =
        if isGroup inner then some ⟨[], inner, rest⟩ else (splitFrom (.index 0) cs).map (extend '[') := by
      simp [splitFrom, hclosing]
    have hclose : (closing '[' ']' 0 cs).map (fun (inner, _) => width a + 1 + width inner) =
        some (width a + 1 + width inner) := by
      rw [hclosing]
      rfl
    have hlooked := lookedFrom_encode_bracket a cs hclose
    have hrest := (h inner rest hclosing).of_append
    have hbrackets : '['.utf8Size = 1 ∧ ']'.utf8Size = 1 := ⟨rfl, rfl⟩
    simp only [List.append_assoc, List.cons_append, List.nil_append, width_append, width_cons, width_nil, hbrackets,
      Nat.add_zero, ← Nat.add_assoc] at hrest
    obtain rfl := eq_append_of_closing hclosing
    have hsplits := Brackets.Splits.closed a inner rest
    rw [hlooked, hline, hsplits.isGroup_encode, splitFrom_index_of_closing hclosing, Option.map_map]
    split
    · next hgroup =>
      have hfinds := Finds.singleton (a := a) (y := ⟨[], inner, rest⟩) (by simpa using hsplits)
      rwa [if_pos hgroup] at hfinds
    · next hindex => exact hrest.cons_index hsplits hindex

/-- The search by positions finds the group that the search by characters finds. -/
theorem finds_lookedFrom (a cs : List Char) (depth : Nat) :
    Finds a cs (lookedFrom (encode (a ++ cs)) depth (width a)) (splitFrom (.line depth) cs) := by
  induction hn : cs.length using Nat.strong_induction_on generalizing a cs depth with
  | _ n ih =>
    cases cs with
    | nil =>
      have hend : step? (encode (a ++ [])) depth (width a) = none := by
        rw [List.append_nil, step?, ← length_encode a, List.getElem?_length, Option.map_none]
      rw [lookedFrom_of_eq_none hend]
      exact ⟨by simp, .none⟩
    | cons c cs =>
      have hlt : cs.length < n := by rw [← hn]; exact Nat.lt_succ_self _
      have hnext := fun depth' => ih _ hlt (a ++ [c]) cs depth' rfl
      by_cases hopen : c = '('
      · subst hopen
        refine .of_line ?_ rfl (hnext (depth + 1))
        rw [lookedFrom_of_eq_some (step?_encode (by decide) a cs depth), width_append]
        rfl
      by_cases hclose : c = ')'
      · subst hclose
        refine .of_line ?_ rfl (hnext (depth - 1))
        rw [lookedFrom_of_eq_some (step?_encode (by decide) a cs depth), width_append]
        rfl
      by_cases hbracket : c = '[' ∧ depth = 0
      · obtain ⟨rfl, rfl⟩ := hbracket
        refine finds_lookedFrom_bracket fun inner rest hclosing => ih _ ?_ _ _ _ rfl
        have hlength := congrArg List.length (eq_append_of_closing hclosing)
        rw [List.length_append, List.length_cons] at hlength
        omega
      · have hpassed : IsPassed depth c := ⟨hopen, hclose, fun hc hdepth => hbracket ⟨hc, hdepth⟩⟩
        exact .of_line (lookedFrom_encode_of_isPassed hpassed a cs) (splitFrom_of_isPassed hpassed cs) (hnext depth)

theorem finds_looked (text : String) : Finds [] text.toList (looked (bytes text)) (split? text.toList) := by
  rw [bytes_eq]
  exact finds_lookedFrom [] text.toList 0

end LadderLogic.Circuit
