import LadderLogic.Proofs.Vocabulary.Inclusion
import Mathlib.Data.List.Infix

/-! Where terms occur, and in which texts a name's terms occur with it. A term without edges occurs in every
text that the name is an excerpt of. -/
namespace LadderLogic.Vocabulary

namespace Glyph

/-- The glyph takes this character. -/
def takes (g : Glyph) (c : Char) : Bool :=
  match g with
  | .char g => Text.fold c == g
  | .exactly g => c == g
  | .oneOf gs => gs.contains (Text.fold c)
  | .optional gs => gs.contains c
  | .digits => Text.isDecimalDigit c

/-- The glyph does not stand in front of nothing. -/
def isNeeded : Glyph → Bool
  | .optional _ => false
  | _ => true

/-- What the glyph leaves of the characters behind the first one that it takes. -/
def behind : Glyph → List Char → List Char
  | .digits, cs => cs.dropWhile Text.isDecimalDigit
  | _, cs => cs

theorem take?_nil (g : Glyph) : g.take? [] = if g.isNeeded then none else some [] := by
  cases g <;> rfl

theorem take?_cons (g : Glyph) (c : Char) (cs : List Char) :
    g.take? (c :: cs) =
      if g.takes c then some (g.behind cs) else if g.isNeeded then none else some (c :: cs) := by
  cases g <;> rfl

/-- A glyph leaves the same characters in front of others, unless it leaves none. -/
theorem take?_append {g : Glyph} {cs rest : List Char} (h : g.take? cs = some rest) (more : List Char) :
    g.take? (cs ++ more) = some (rest ++ more) ∨ rest = [] ∧ (g.take? (cs ++ more)).isSome = true := by
  cases cs with
  | nil =>
    cases g with
    | optional gs =>
      cases h
      refine .inr ⟨rfl, ?_⟩
      cases more with
      | nil => rfl
      | cons c more =>
        rw [List.nil_append, take?]
        split <;> rfl
    | _ => cases h
  | cons c cs =>
    cases g with
    | digits =>
      rw [take?] at h
      obtain ⟨hdigit, hrest⟩ := Option.ite_none_right_eq_some.1 h
      cases hrest
      rw [List.cons_append, take?, if_pos hdigit]
      rw [List.dropWhile_append]
      split
      · next hempty => exact .inr ⟨List.isEmpty_iff.1 hempty, rfl⟩
      · exact .inl rfl
    | _ =>
      refine .inl ?_
      rw [take?] at h
      rw [List.cons_append, take?]
      split at h
      · next hc =>
        cases h
        rw [if_pos hc]
      · next hc =>
        cases h <;> rw [if_neg hc] <;> rfl

/-- A row of glyphs that needs no character stands in front of anything. -/
theorem isSome_takeAll?_of_nil {gs : List Glyph} (h : (takeAll? gs []).isSome = true) (cs : List Char) :
    (takeAll? gs cs).isSome = true := by
  induction gs generalizing cs with
  | nil => rfl
  | cons g gs ih =>
    cases g with
    | optional chars =>
      rw [takeAll?] at h ⊢
      cases cs with
      | nil => exact h
      | cons c cs =>
        rw [take?]
        split
        · exact ih h cs
        · exact ih h (c :: cs)
    | _ => cases h

theorem isSome_takeAll?_append {gs : List Glyph} {cs : List Char} (h : (takeAll? gs cs).isSome = true)
    (more : List Char) : (takeAll? gs (cs ++ more)).isSome = true := by
  induction gs generalizing cs with
  | nil => rfl
  | cons g gs ih =>
    obtain ⟨last, hlast⟩ := Option.isSome_iff_exists.1 h
    obtain ⟨rest, hrest, hgs⟩ := Option.bind_eq_some_iff.1 hlast
    have hsome := Option.isSome_of_eq_some hgs
    rw [takeAll?]
    rcases take?_append hrest more with htake | ⟨rfl, htake⟩
    · rw [htake]
      exact ih hsome
    · -- The glyphs behind this one have found nothing, so that they need nothing.
      obtain ⟨rest', hrest'⟩ := Option.isSome_iff_exists.1 htake
      rw [hrest']
      exact isSome_takeAll?_of_nil hsome rest'

/-- The letters of a word stand in front of a text that starts with the word in some spelling. -/
theorem takeAll?_letters_eq_some_iff {w : List Char} {cs rest : List Char} :
    takeAll? (w.map .char) cs = some rest ↔ ∃ spelling, cs = spelling ++ rest ∧ spelling.map Text.fold = w := by
  induction w generalizing cs with
  | nil => simp [takeAll?, eq_comm]
  | cons g w ih =>
    rw [List.map_cons, takeAll?]
    cases cs with
    | nil => simp [take?]
    | cons c cs =>
      rw [take?]
      constructor
      · intro h
        obtain ⟨cs', hc, hw⟩ := Option.bind_eq_some_iff.1 h
        obtain ⟨hfold, hcs⟩ := Option.ite_none_right_eq_some.1 hc
        cases hcs
        obtain ⟨spelling, rfl, rfl⟩ := ih.1 hw
        exact ⟨c :: spelling, rfl, by rw [List.map_cons, eq_of_beq hfold]⟩
      · rintro ⟨spelling, hcs, hspelling⟩
        obtain ⟨c', spelling', rfl, rfl, hw⟩ := List.map_eq_cons_iff.1 hspelling
        obtain ⟨rfl, rfl⟩ := List.cons.inj hcs
        rw [if_pos (beq_self_eq_true _)]
        exact ih.2 ⟨spelling', rfl, hw⟩

end Glyph

namespace Term

theorem occursFrom_eq_true_iff {t : Term} {before : Option Char} {cs : List Char} :
    t.occursFrom before cs = true ↔
      ∃ left right, cs = left ++ right ∧ t.standsAt (left.getLast?.or before) right = true := by
  induction cs generalizing before with
  | nil =>
    rw [occursFrom]
    constructor
    · intro h
      exact ⟨[], [], rfl, h⟩
    · rintro ⟨left, right, hcs, h⟩
      obtain ⟨rfl, rfl⟩ := List.append_eq_nil_iff.1 hcs.symm
      exact h
  | cons c cs ih =>
    rw [occursFrom, Bool.or_eq_true, ih]
    constructor
    · rintro (h | ⟨left, right, rfl, h⟩)
      · exact ⟨[], c :: cs, rfl, h⟩
      · refine ⟨c :: left, right, rfl, ?_⟩
        rwa [List.getLast?_cons, Option.some_or, ← Option.or_some]
    · rintro ⟨left, right, hcs, h⟩
      cases left with
      | nil =>
        rw [List.nil_append] at hcs
        exact .inl (hcs ▸ h)
      | cons c' left =>
        obtain ⟨rfl, rfl⟩ := List.cons.inj hcs
        refine .inr ⟨left, right, rfl, ?_⟩
        rwa [List.getLast?_cons, Option.some_or, ← Option.or_some] at h

/-- Anything may stand before the term and behind it. -/
def isFree (t : Term) : Bool :=
  t.left = .anything && t.right = .anything

theorem standsAt_of_right_eq {t : Term} (h : t.right = .anything) (before : Option Char) (cs : List Char) :
    t.standsAt before cs = (t.left.admits before && (Glyph.takeAll? t.glyphs cs).isSome) := by
  unfold standsAt
  rw [h]
  cases Glyph.takeAll? t.glyphs cs <;> rfl

/-- A term that anything may follow is found in a text with the name if it may stand behind what the name
stands behind. -/
theorem occursIn_append {t : Term} (hright : t.right = .anything) {front name : List Char}
    (hleft : t.left.admits front.getLast? = true) (hname : t.occursIn name = true) (back : List Char) :
    t.occursIn (front ++ name ++ back) = true := by
  obtain ⟨left, right, rfl, hstands⟩ := occursFrom_eq_true_iff.1 hname
  rw [standsAt_of_right_eq hright, Bool.and_eq_true, Option.or_none] at hstands
  obtain ⟨hadmits, hglyphs⟩ := hstands
  have hbefore : t.left.admits (front ++ left).getLast? = true := by
    rw [List.getLast?_append]
    cases hlast : left.getLast? with
    | none => exact hleft
    | some c =>
      rw [hlast] at hadmits
      exact hadmits
  refine occursFrom_eq_true_iff.2 ⟨front ++ left, right ++ back, by simp only [List.append_assoc], ?_⟩
  rw [standsAt_of_right_eq hright, Option.or_none, hbefore, Bool.true_and]
  exact Glyph.isSome_takeAll?_append hglyphs back

theorem occursIn_of_infix {t : Term} (h : t.isFree = true) {name text : List Char} (hexcerpt : name <:+: text)
    (hname : t.occursIn name = true) : t.occursIn text = true := by
  obtain ⟨front, back, rfl⟩ := hexcerpt
  obtain ⟨hleft, hright⟩ : t.left = .anything ∧ t.right = .anything := by simpa [isFree] using h
  have hadmits : t.left.admits front.getLast? = true := by
    rw [hleft]
    rfl
  exact occursIn_append hright hadmits hname back

/-- A term behind a character that it may stand behind. -/
theorem occursIn_of_cons_infix {t : Term} (hright : t.right = .anything) {c : Char}
    (hleft : t.left.admits (some c) = true) {name text : List Char} (hexcerpt : c :: name <:+: text)
    (hname : t.occursIn name = true) : t.occursIn text = true := by
  obtain ⟨front, back, rfl⟩ := hexcerpt
  have hadmits : t.left.admits (front ++ [c]).getLast? = true := by
    rw [List.getLast?_concat]
    exact hleft
  have hoccurs := occursIn_append hright hadmits hname back
  simpa only [List.append_assoc, List.singleton_append] using hoccurs

theorem standsAt_ending_iff {w : String} {before : Option Char} {cs : List Char} :
    (ending w).standsAt before cs = true ↔ cs.map Text.fold = w.toList := by
  have hstands : (ending w).standsAt before cs = true ↔ Glyph.takeAll? (w.toList.map .char) cs = some [] := by
    unfold standsAt ending letters
    cases Glyph.takeAll? (w.toList.map .char) cs with
    | none => simp
    | some rest => cases rest <;> simp [LeftEdge.admits, RightEdge.admits]
  rw [hstands, Glyph.takeAll?_letters_eq_some_iff]
  simp

/-- A word that a name ends in is found in a text that ends in it, in some spelling. -/
theorem occursIn_ending_iff {w : String} {cs : List Char} :
    (ending w).occursIn cs = true ↔ w.toList <:+ cs.map Text.fold := by
  unfold occursIn
  simp only [occursFrom_eq_true_iff, standsAt_ending_iff]
  constructor
  · rintro ⟨left, right, rfl, hright⟩
    rw [List.map_append, hright]
    exact List.suffix_append _ _
  · rintro ⟨front, hfront⟩
    obtain ⟨left, right, rfl, -, hright⟩ := List.map_eq_append_iff.1 hfront.symm
    exact ⟨left, right, rfl, hright⟩

end Term

/-- The terms without edges. -/
def free (v : Vocabulary) : Vocabulary :=
  v.filter Term.isFree

/-- The terms with an edge. -/
def edged (v : Vocabulary) : Vocabulary :=
  v.filter fun t => !t.isFree

theorem recognizes_eq_free_or_edged (v : Vocabulary) (name : String) :
    v.recognizes name = (v.free.recognizes name || v.edged.recognizes name) := by
  rw [Bool.eq_iff_iff, Bool.or_eq_true, recognizes_eq_true_iff, recognizes_eq_true_iff, recognizes_eq_true_iff]
  constructor
  · rintro ⟨t, ht, hoccurs⟩
    cases hfree : t.isFree with
    | true => exact .inl ⟨t, List.mem_filter.2 ⟨ht, hfree⟩, hoccurs⟩
    | false => exact .inr ⟨t, List.mem_filter.2 ⟨ht, by rw [hfree, Bool.not_false]⟩, hoccurs⟩
  · rintro (⟨t, ht, hoccurs⟩ | ⟨t, ht, hoccurs⟩)
    · exact ⟨t, List.mem_of_mem_filter ht, hoccurs⟩
    · exact ⟨t, List.mem_of_mem_filter ht, hoccurs⟩

theorem recognizes_free_of_infix {v : Vocabulary} {name text : String} (hexcerpt : name.toList <:+: text.toList)
    (hname : v.free.recognizes name = true) : v.free.recognizes text = true := by
  rw [recognizes_eq_true_iff] at hname ⊢
  obtain ⟨t, ht, hoccurs⟩ := hname
  exact ⟨t, ht, Term.occursIn_of_infix (List.mem_filter.1 ht).2 hexcerpt hoccurs⟩

end LadderLogic.Vocabulary
