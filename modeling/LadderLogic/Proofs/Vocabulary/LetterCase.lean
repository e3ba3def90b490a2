import LadderLogic.Proofs.Vocabulary.Trimming
import LadderLogic.Context.Subsystem
import Mathlib.Data.List.Find

/-! Names in another letter case. They get the same answers everywhere, but for the emergency stop that is known
by its capitals. -/
namespace LadderLogic

namespace Text

/-- A character is in lower case already, or it is one of the 26 capitals. -/
theorem toLower_eq_or (c : Char) : c.toLower = c ∨ ∃ n < 26, c = Char.ofNat (65 + n) := by
  unfold Char.toLower
  split
  · next h =>
    have hrange : 65 ≤ c.toNat ∧ c.toNat ≤ 90 := by
      rw [ge_iff_le, UInt32.le_iff_toNat_le, UInt32.le_iff_toNat_le] at h
      exact h
    refine .inr ⟨c.toNat - 65, by omega, ?_⟩
    rw [show 65 + (c.toNat - 65) = c.toNat by omega, Char.ofNat_toNat]
  · exact .inl rfl

/-- What is the same for each capital and its small letter is the same for all characters. -/
theorem apply_toLower {f : Char → α}
    (hf : ∀ n < 26, f (Char.ofNat (65 + n)).toLower = f (Char.ofNat (65 + n))) (c : Char) :
    f c.toLower = f c := by
  rcases toLower_eq_or c with heq | ⟨n, hn, rfl⟩
  · rw [heq]
  · exact hf n hn

theorem fold_toLower (c : Char) : fold c.toLower = fold c :=
  apply_toLower (by decide) c

theorem toUpper_toLower (c : Char) : c.toLower.toUpper = c.toUpper :=
  apply_toLower (f := Char.toUpper) (by decide) c

theorem isBlank_toLower (c : Char) : isBlank c.toLower = isBlank c :=
  apply_toLower (by decide) c

theorem isDecimalDigit_toLower (c : Char) : isDecimalDigit c.toLower = isDecimalDigit c :=
  apply_toLower (by decide +kernel) c

theorem isFoldedLetter_toLower (c : Char) : isFoldedLetter c.toLower = isFoldedLetter c := by
  rw [isFoldedLetter, isFoldedLetter, fold_toLower]

/-- What holds of no letter does not depend on the case. -/
theorem apply_toLower_of_isAlpha {f : Char → Bool} (hf : ∀ c, c.isAlpha = true → f c = false) (c : Char) :
    f c.toLower = f c := by
  have hletters : ∀ n < 26,
      (Char.ofNat (65 + n)).isAlpha = true ∧ (Char.ofNat (65 + n)).toLower.isAlpha = true := by decide
  refine apply_toLower (fun n hn => ?_) c
  rw [hf _ (hletters n hn).1, hf _ (hletters n hn).2]

end Text

namespace Vocabulary

namespace Glyph

/-- The glyph does not tell a capital from its small letter. -/
def isCaseless : Glyph → Bool
  | .exactly g => !g.isAlpha
  | .optional gs => gs.all (!·.isAlpha)
  | _ => true

theorem takes_toLower {g : Glyph} (h : g.isCaseless = true) (c : Char) : g.takes c.toLower = g.takes c := by
  cases g with
  | char d => rw [takes, takes, Text.fold_toLower]
  | exactly d =>
    refine Text.apply_toLower_of_isAlpha (f := (· == d)) (fun c hc => beq_false_of_ne ?_) c
    rintro rfl
    rw [isCaseless, hc] at h
    cases h
  | oneOf gs => rw [takes, takes, Text.fold_toLower]
  | optional gs =>
    rw [isCaseless, List.all_eq_true] at h
    refine Text.apply_toLower_of_isAlpha (f := gs.contains) (fun c hc => ?_) c
    rw [List.contains_eq_mem, decide_eq_false_iff_not]
    intro hmem
    have hnot := h c hmem
    rw [hc] at hnot
    cases hnot
  | digits => exact Text.isDecimalDigit_toLower c

theorem behind_map_toLower (g : Glyph) (cs : List Char) :
    g.behind (cs.map Char.toLower) = (g.behind cs).map Char.toLower := by
  cases g with
  | digits =>
    rw [behind, behind, List.dropWhile_map]
    simp only [Function.comp_def, Text.isDecimalDigit_toLower]
  | _ => rfl

theorem take?_map_toLower {g : Glyph} (h : g.isCaseless = true) (cs : List Char) :
    g.take? (cs.map Char.toLower) = (g.take? cs).map (List.map Char.toLower) := by
  cases cs with
  | nil =>
    rw [List.map_nil, take?_nil]
    cases g.isNeeded <;> rfl
  | cons c cs =>
    rw [List.map_cons, take?_cons, take?_cons, takes_toLower h, behind_map_toLower]
    cases g.takes c <;> cases g.isNeeded <;> rfl

theorem takeAll?_map_toLower {gs : List Glyph} (h : ∀ g ∈ gs, g.isCaseless = true) (cs : List Char) :
    takeAll? gs (cs.map Char.toLower) = (takeAll? gs cs).map (List.map Char.toLower) := by
  induction gs generalizing cs with
  | nil => rfl
  | cons g gs ih =>
    rw [List.forall_mem_cons] at h
    rw [takeAll?, takeAll?, take?_map_toLower h.1]
    cases g.take? cs with
    | none => rfl
    | some rest => exact ih h.2 rest

end Glyph

theorem LeftEdge.admits_toLower (e : LeftEdge) (before : Option Char) :
    e.admits (before.map Char.toLower) = e.admits before := by
  cases before with
  | none => rfl
  | some c =>
    cases e with
    | segment => exact Text.apply_toLower (f := fun c => admits .segment (some c)) (by decide) c
    | noLetter => simp only [Option.map_some, admits, Text.isFoldedLetter_toLower]
    | notLetter d => simp only [Option.map_some, admits, Text.fold_toLower]
    | _ => rfl

theorem RightEdge.admits_toLower (e : RightEdge) (after : Option Char) :
    e.admits (after.map Char.toLower) = e.admits after := by
  cases after with
  | none => rfl
  | some c =>
    cases e with
    | segment => exact Text.apply_toLower (f := fun c => admits .segment (some c)) (by decide) c
    | _ => rfl

namespace Term

/-- No glyph of the term tells a capital from its small letter. The edges never do. -/
def isCaseless (t : Term) : Bool :=
  t.glyphs.all Glyph.isCaseless

section Caseless
variable {t : Term} (h : t.isCaseless = true)
include h

theorem standsAt_map_toLower (before : Option Char) (cs : List Char) :
    t.standsAt (before.map Char.toLower) (cs.map Char.toLower) = t.standsAt before cs := by
  rw [isCaseless, List.all_eq_true] at h
  rw [standsAt, standsAt, LeftEdge.admits_toLower, Glyph.takeAll?_map_toLower h]
  cases Glyph.takeAll? t.glyphs cs with
  | none => rfl
  | some rest =>
    rw [Option.map_some]
    dsimp only
    rw [List.head?_map, RightEdge.admits_toLower]

theorem occursFrom_map_toLower (before : Option Char) (cs : List Char) :
    t.occursFrom (before.map Char.toLower) (cs.map Char.toLower) = t.occursFrom before cs := by
  induction cs generalizing before with
  | nil => exact standsAt_map_toLower h before []
  | cons c cs ih =>
    have hstands := standsAt_map_toLower h before (c :: cs)
    rw [List.map_cons] at hstands ⊢
    rw [occursFrom, occursFrom, hstands, ← ih (some c)]
    rfl

theorem occursIn_map_toLower (cs : List Char) : t.occursIn (cs.map Char.toLower) = t.occursIn cs :=
  occursFrom_map_toLower h none cs

end Caseless

end Term

/-- The word for an emergency stop that is known by its capitals. -/
def Term.camelStop : Term :=
  { glyphs := [.exactly 'E', .optional ['_'], .exactly 'S', .exactly 't', .exactly 'o', .exactly 'p'] }

theorem Glyph.takeAll?_exactly_eq_some_iff {w cs rest : List Char} :
    takeAll? (w.map .exactly) cs = some rest ↔ cs = w ++ rest := by
  induction w generalizing cs with
  | nil => simp [takeAll?]
  | cons g w ih =>
    rw [List.map_cons, takeAll?]
    cases cs with
    | nil => simp [take?]
    | cons c cs =>
      by_cases hc : c = g
      · simp [take?, hc, ih]
      · simp [take?, hc]

/-- An optional character is there or nothing is taken. -/
theorem Glyph.eq_or_eq_cons_of_take?_optional {c : Char} {cs rest : List Char}
    (h : take? (.optional [c]) cs = some rest) : cs = rest ∨ cs = c :: rest := by
  cases cs with
  | nil => exact .inl (Option.some.inj h)
  | cons d cs =>
    rw [take?] at h
    split at h
    · next hd =>
      cases h
      rw [List.contains_iff_mem, List.mem_singleton] at hd
      exact .inr (by rw [hd])
    · exact .inl (Option.some.inj h)

theorem Term.infix_of_occursIn_camelStop {cs : List Char} (h : camelStop.occursIn cs = true) :
    "EStop".toList <:+: cs ∨ "E_Stop".toList <:+: cs := by
  obtain ⟨left, right, rfl, hstands⟩ := occursFrom_eq_true_iff.1 h
  rw [standsAt_of_right_eq rfl, Bool.and_eq_true] at hstands
  obtain ⟨last, hlast⟩ := Option.isSome_iff_exists.1 hstands.2
  obtain ⟨second, hfirst, hlast⟩ := Option.bind_eq_some_iff.1 hlast
  obtain ⟨third, hsecond, hlast⟩ := Option.bind_eq_some_iff.1 hlast
  have hstop : third = "Stop".toList ++ last := Glyph.takeAll?_exactly_eq_some_iff.1 hlast
  have hletter : right = ['E'] ++ second := by
    rw [← Glyph.takeAll?_exactly_eq_some_iff, List.map_singleton, Glyph.takeAll?, hfirst]
    rfl
  rcases Glyph.eq_or_eq_cons_of_take?_optional hsecond with hnone | hline
  · exact .inl ⟨left, last, by simp [hletter, hnone, hstop]⟩
  · exact .inr ⟨left, last, by simp [hletter, hline, hstop]⟩

/-- Texts that differ in letter case only. Neither has the word that is known by its capitals. -/
structure Recased (a b : List Char) : Prop where
  map_toLower : a.map Char.toLower = b.map Char.toLower
  left : Term.camelStop.occursIn a = false
  right : Term.camelStop.occursIn b = false

theorem recognizes_eq_of_recased {v : Vocabulary} (hv : ∀ t ∈ v, t.isCaseless = true ∨ t = Term.camelStop)
    {a b : String} (h : Recased a.toList b.toList) : v.recognizes a = v.recognizes b := by
  have hterm : ∀ t ∈ v, t.occursIn a.toList = t.occursIn b.toList := by
    intro t ht
    rcases hv t ht with hcaseless | rfl
    · rw [← Term.occursIn_map_toLower hcaseless, h.map_toLower, Term.occursIn_map_toLower hcaseless]
    · rw [h.left, h.right]
  rw [Bool.eq_iff_iff, recognizes_eq_true_iff, recognizes_eq_true_iff]
  refine exists_congr fun t => and_congr_right fun ht => ?_
  rw [hterm t ht]

end Vocabulary

namespace Text

theorem toLower_eq_iff {a b : String} :
    a.toLower = b.toLower ↔ a.toList.map Char.toLower = b.toList.map Char.toLower := by
  have hlist (s : String) : s.toLower.toList = s.toList.map Char.toLower := String.toList_map
  rw [← String.toList_inj, hlist, hlist]

theorem trimChars_map_toLower (cs : List Char) :
    trimChars (cs.map Char.toLower) = (trimChars cs).map Char.toLower := by
  unfold trimChars
  simp only [List.dropWhile_map, ← List.map_reverse, Function.comp_def, isBlank_toLower]

theorem trimChars_infix (cs : List Char) : trimChars cs <:+: cs := by
  obtain ⟨front, back, hcs, -⟩ := exists_blank_append_trimChars cs
  exact ⟨front, back, by rw [List.append_assoc, ← hcs]⟩

theorem upperChars_map_toLower (cs : List Char) : upperChars (cs.map Char.toLower) = upperChars cs := by
  unfold upperChars
  simp only [List.map_map, Function.comp_def, toUpper_toLower]

end Text

namespace Vocabulary

theorem Recased.trim {a b : String} (h : Recased a.toList b.toList) :
    Recased (Text.trim a).toList (Text.trim b).toList := by
  have hnone : ∀ cs, Term.camelStop.occursIn cs = false → Term.camelStop.occursIn (Text.trimChars cs) = false := by
    intro cs hcs
    refine Bool.eq_false_iff.2 fun hoccurs => ?_
    rw [Term.occursIn_of_infix rfl (Text.trimChars_infix cs) hoccurs] at hcs
    cases hcs
  simp only [Text.trim, String.toList_ofList]
  refine ⟨?_, hnone _ h.left, hnone _ h.right⟩
  rw [← Text.trimChars_map_toLower, h.map_toLower, Text.trimChars_map_toLower]

theorem Recased.normal {a b : String} (h : Recased a.toList b.toList) : Ending.normal a = Ending.normal b := by
  unfold Ending.normal
  rw [← Text.upperChars_map_toLower, ← Text.trimChars_map_toLower, h.map_toLower, Text.trimChars_map_toLower,
    Text.upperChars_map_toLower]

/-- The vocabularies of the rules. -/
def ofRules : List Vocabulary :=
  [safety, emergencyStop, gate, guard, motor, startStop, fault, command, feedback, sequence, zone, analog, alarm,
   mode, jog, panel, optionBit]

theorem isCaseless_or_of_mem :
    ∀ v ∈ ofRules ++ (Role.vocabularies.map (·.1) ++ Subsystem.vocabularies.map (·.1)),
      ∀ t ∈ v, t.isCaseless = true ∨ t = Term.camelStop := by
  decide +kernel

namespace Recased
variable {a b : String} (h : Recased a.toList b.toList)
include h

theorem role : Role.ofName a = Role.ofName b := by
  have hrows : ∀ row ∈ Role.vocabularies, row.1.recognizes (Text.trim a) = row.1.recognizes (Text.trim b) := by
    intro row hrow
    refine recognizes_eq_of_recased (isCaseless_or_of_mem row.1 ?_) h.trim
    exact List.mem_append_right _ (List.mem_append_left _ (List.mem_map_of_mem hrow))
  unfold Role.ofName
  generalize Role.vocabularies = rows at hrows ⊢
  rw [@List.find?_congr _ _ (fun row => row.1.recognizes (Text.trim b)) rows]
  exact hrows

theorem subsystems : Subsystem.ofTag a = Subsystem.ofTag b := by
  have hrows : ∀ row ∈ Subsystem.vocabularies, row.1.recognizes a = row.1.recognizes b := by
    intro row hrow
    refine recognizes_eq_of_recased (isCaseless_or_of_mem row.1 ?_) h
    exact List.mem_append_right _ (List.mem_append_right _ (List.mem_map_of_mem hrow))
  unfold Subsystem.ofTag
  generalize Subsystem.vocabularies = rows at hrows ⊢
  rw [@List.filter_congr _ _ (fun row => row.1.recognizes b) rows]
  exact hrows

theorem endsIn : Ending.endsIn a = Ending.endsIn b := by
  funext word
  unfold Ending.endsIn
  rw [h.normal]

theorem startsWith : Ending.startsWith a = Ending.startsWith b := by
  funext word
  unfold Ending.startsWith
  rw [h.normal]

end Recased

/-- Two names with the same lower-case spelling get the same answers from all vocabularies and all tables of
endings, unless one of them has the word for an emergency stop that is known by its capitals. -/
theorem verdicts_eq_of_toLower_eq {a b : String} (h : a.toLower = b.toLower)
    (ha : ¬"EStop".toList <:+: a.toList ∧ ¬"E_Stop".toList <:+: a.toList)
    (hb : ¬"EStop".toList <:+: b.toList ∧ ¬"E_Stop".toList <:+: b.toList) :
    (∀ v ∈ ofRules, v.recognizes a = v.recognizes b) ∧
      Role.ofName a = Role.ofName b ∧
      Ending.namesBit a = Ending.namesBit b ∧
      Ending.reportsStatus a = Ending.reportsStatus b ∧
      Intent.ofName? a = Intent.ofName? b ∧
      ∀ before after, Subsystem.ofTags (before ++ a :: after) = Subsystem.ofTags (before ++ b :: after) := by
  have hnone : ∀ cs, ¬"EStop".toList <:+: cs ∧ ¬"E_Stop".toList <:+: cs → Term.camelStop.occursIn cs = false := by
    intro cs hcs
    refine Bool.eq_false_iff.2 fun hoccurs => ?_
    exact (Term.infix_of_occursIn_camelStop hoccurs).elim hcs.1 hcs.2
  have hrecased : Recased a.toList b.toList := ⟨Text.toLower_eq_iff.1 h, hnone _ ha, hnone _ hb⟩
  refine ⟨?_, hrecased.role, ?_, ?_, ?_, ?_⟩
  · intro v hv
    exact recognizes_eq_of_recased (isCaseless_or_of_mem v (List.mem_append_left _ hv)) hrecased
  · rw [Ending.namesBit, Ending.namesBit, hrecased.startsWith, hrecased.endsIn]
  · rw [Ending.reportsStatus, Ending.reportsStatus, hrecased.endsIn]
  · rw [Intent.ofName?, Intent.ofName?, hrecased.endsIn]
  · intro before after
    simp only [Subsystem.ofTags, List.flatMap_append, List.flatMap_cons, hrecased.subsystems]

theorem verdicts_eq_of_toLower_eq_padded :
    let a := "\tLine-E_STOP.err_running "
    let b := "\tlINE-e_stop.ERR_Running "
    (a.toLower = b.toLower ∧ (¬"EStop".toList <:+: a.toList ∧ ¬"E_Stop".toList <:+: a.toList) ∧
        ¬"EStop".toList <:+: b.toList ∧ ¬"E_Stop".toList <:+: b.toList) ∧
      (emergencyStop.recognizes a = true ∧ Intent.ofName? a = some .running) ∧
      emergencyStop.recognizes b = true ∧ Intent.ofName? b = some .running := by
  intro a b
  have hlower : a.toLower = b.toLower := Text.toLower_eq_iff.2 (by decide +kernel)
  have ha : ¬"EStop".toList <:+: a.toList ∧ ¬"E_Stop".toList <:+: a.toList := by decide +kernel
  have hb : ¬"EStop".toList <:+: b.toList ∧ ¬"E_Stop".toList <:+: b.toList := by decide +kernel
  have hstop : emergencyStop.recognizes a = true := by decide +kernel
  have hintent : Intent.ofName? a = some .running := by decide +kernel
  obtain ⟨hrules, -, -, -, hintents, -⟩ := verdicts_eq_of_toLower_eq hlower ha hb
  refine ⟨⟨hlower, ha, hb⟩, ⟨hstop, hintent⟩, ?_, ?_⟩
  · rw [← hrules emergencyStop (by decide), hstop]
  · rw [← hintents, hintent]

-- Behind a letter, capitals alone tell an emergency stop from the end of another word.
example : emergencyStop.recognizes "CellEStop" = true ∧ emergencyStop.recognizes "GATESTOP" = false := by
  decide +kernel

end Vocabulary

end LadderLogic
