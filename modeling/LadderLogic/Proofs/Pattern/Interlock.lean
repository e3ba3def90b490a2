import LadderLogic.Proofs.Pattern.Detection
import LadderLogic.Proofs.Rung.Excerpt
import LadderLogic.Proofs.Vocabulary.Trimming

/-! Interlocks, and the tags that tell their variant. The text alone decides about the variant, and it has every
word of safety that the tags have. -/
namespace LadderLogic

theorem Text.isFoldedLetter_of_isBlank {c : Char} (h : isBlank c = true) : isFoldedLetter c = false := by
  rw [isFoldedLetter, fold_of_isBlank h]
  simp only [isBlank, Bool.or_eq_true, Bool.and_eq_true, decide_eq_true_eq, beq_iff_eq] at h
  have hupper : ¬('A' ≤ c ∧ c ≤ 'Z') := by
    rw [Char.le_def, Char.le_def, UInt32.le_iff_toNat_le, UInt32.le_iff_toNat_le]
    change ¬(65 ≤ c.toNat ∧ c.toNat ≤ 90)
    omega
  simpa using hupper

theorem Operand.isFoldedLetter_of_isLead {c : Char} (h : isLead c = true) : Text.isFoldedLetter c = false := by
  simp only [isLead, Bool.or_eq_true, beq_iff_eq] at h
  rcases h with (rfl | rfl) | hblank
  · decide
  · decide
  · exact Text.isFoldedLetter_of_isBlank hblank

namespace Vocabulary

/-- Anything but a letter may stand before the term, and anything behind it. -/
def Term.isSpare (t : Term) : Bool :=
  (t.left = .anything || t.left = .noLetter) && t.right = .anything

theorem Term.admits_of_isSpare {t : Term} (h : t.isSpare = true) {c : Char} (hc : Text.isFoldedLetter c = false) :
    t.left.admits (some c) = true := by
  simp only [isSpare, Bool.and_eq_true, Bool.or_eq_true, decide_eq_true_eq] at h
  rcases h.1 with hleft | hleft
  · rw [hleft]
    rfl
  · rw [hleft, LeftEdge.admits, hc, Bool.not_false]

/-- A vocabulary of such terms recognizes every text that a name it recognizes is an operand in. -/
theorem recognizes_of_standsIn {v : Vocabulary} (hv : ∀ t ∈ v, t.isSpare = true) {name text : String}
    (h : Operand.StandsIn name.toList text.toList) (hname : v.recognizes name = true) :
    v.recognizes text = true := by
  rw [recognizes_eq_true_iff] at hname ⊢
  obtain ⟨t, ht, hoccurs⟩ := hname
  obtain ⟨c, hlead, hexcerpt⟩ := h
  have hspare := hv t ht
  have hright : t.right = .anything := by
    simp only [Term.isSpare, Bool.and_eq_true, decide_eq_true_eq] at hspare
    exact hspare.2
  have hleft := Term.admits_of_isSpare hspare (Operand.isFoldedLetter_of_isLead hlead)
  exact ⟨t, ht, Term.occursIn_of_cons_infix hright hleft hexcerpt hoccurs⟩

/-- The vocabularies of the rule. -/
def ofInterlocks : List Vocabulary := [safety, emergencyStop, gate, guard]

theorem isSpare_of_mem_ofInterlocks : ∀ v ∈ ofInterlocks, ∀ t ∈ v, t.isSpare = true := by
  decide

end Vocabulary

/-- The vocabularies of interlocks find in the text of a rung what they find in its tags. -/
theorem View.recognizes_text_of_mem_tags {rung : Rung}
    (h : rung.instructions = [] ∨ Text.isBlankText rung.text = true) {program routine tag : String}
    (htag : tag ∈ (ofRung program routine rung).tags) {v : Vocabulary} (hv : v ∈ Vocabulary.ofInterlocks)
    (hrecognizes : v.recognizes tag = true) : v.recognizes (ofRung program routine rung).text = true :=
  Vocabulary.recognizes_of_standsIn (Vocabulary.isSpare_of_mem_ofInterlocks v hv)
    (standsIn_text_of_mem_tags h htag) hrecognizes

namespace Rule

theorem safetyVariant_of_emergencyStop {text : String} (h : Vocabulary.emergencyStop.recognizes text = true) :
    (safetyVariant text).1 = "Emergency stop" := by
  rw [safetyVariant, if_pos h]

theorem safetyVariant_of_gate {text : String} (h : Vocabulary.gate.recognizes text = true) :
    (safetyVariant text).1 = "Emergency stop" ∨ (safetyVariant text).1 = "Gate" := by
  unfold safetyVariant
  rw [if_pos h]
  split
  · exact .inl rfl
  · exact .inr rfl

end Rule

namespace Pattern

/-- The description of the interlock opens with the variant. -/
def HasVariant (p : Pattern) (variant : String) : Prop :=
  (variant ++ " interlock: ").toList <+: p.description.toList

theorem hasVariant_of_mem_detect {v : View} {p : Pattern} (h : p ∈ detect v) (hkind : p.kind = .safetyInterlock) :
    p.HasVariant (Rule.safetyVariant v.text).1 := by
  obtain ⟨f, hf, hp⟩ := exists_finding_of_mem_detect h
  rw [hkind] at hf
  obtain ⟨rest, rfl⟩ := Rule.eq_of_safetyInterlock hf
  rw [HasVariant, hp]
  exact ⟨rest.toList, String.toList_append.symm⟩

/-- On a rung whose text tells its instructions or is made from them, the text has all words of safety,
emergency stops, gates and guards that the tags have. So an interlock on a rung with a tag of emergency
stops is one of these, and with a tag of gates it is one of emergency stops or gates. -/
theorem hasVariant_of_mem_tags {rung : Rung} (h : rung.instructions = [] ∨ Text.isBlankText rung.text = true)
    (program routine : String) :
    let v := View.ofRung program routine rung
    (∀ words ∈ [Vocabulary.safety, Vocabulary.emergencyStop, Vocabulary.gate, Vocabulary.guard],
        ∀ tag ∈ v.tags, words.recognizes tag = true → words.recognizes v.text = true) ∧
      ∀ p ∈ detect v, p.kind = .safetyInterlock →
        ((∃ tag ∈ v.tags, Vocabulary.emergencyStop.recognizes tag = true) → p.HasVariant "Emergency stop") ∧
        ((∃ tag ∈ v.tags, Vocabulary.gate.recognizes tag = true) →
          p.HasVariant "Emergency stop" ∨ p.HasVariant "Gate") := by
  intro v
  have hwords : ∀ words ∈ Vocabulary.ofInterlocks, ∀ tag ∈ v.tags, words.recognizes tag = true →
      words.recognizes v.text = true :=
    fun words hmem tag htag hrecognizes => View.recognizes_text_of_mem_tags h htag hmem hrecognizes
  refine ⟨hwords, ?_⟩
  intro p hp hkind
  have hvariant := hasVariant_of_mem_detect hp hkind
  constructor
  · rintro ⟨tag, htag, hstop⟩
    have htext := hwords Vocabulary.emergencyStop (by decide) tag htag hstop
    rwa [Rule.safetyVariant_of_emergencyStop htext] at hvariant
  · rintro ⟨tag, htag, hgate⟩
    have htext := hwords Vocabulary.gate (by decide) tag htag hgate
    rcases Rule.safetyVariant_of_gate htext with heq | heq
    · rw [heq] at hvariant
      exact .inl hvariant
    · rw [heq] at hvariant
      exact .inr hvariant

/-- An emergency stop behind an ideographic space in the second leg, and a gate on a rung without text. -/
theorem hasVariant_of_mem_tags_stop_gate :
    let a : Rung := { number := 1, text := "[XIC(Gate_1),XIO(\u3000e-stop2 )]OTE(Run)" }
    let b : Rung :=
      { number := 2, text := " \t", instructions := [{ kind := "xio", operands := ["Speed", " DOOR.1"] },
        { kind := "OTE", operands := ["Run"] }] }
    let v := View.ofRung "Main" "R1" a
    let w := View.ofRung "Main" "R1" b
    ((∃ tag ∈ v.tags, Vocabulary.emergencyStop.recognizes tag = true) ∧
        ∃ p ∈ detect v, p.kind = .safetyInterlock ∧ p.HasVariant "Emergency stop") ∧
      (∃ tag ∈ w.tags, Vocabulary.gate.recognizes tag = true) ∧
        ∃ p ∈ detect w, p.kind = .safetyInterlock ∧ (p.HasVariant "Emergency stop" ∨ p.HasVariant "Gate") := by
  intro a b v w
  have hstop : ∃ tag ∈ v.tags, Vocabulary.emergencyStop.recognizes tag = true := by decide +kernel
  have hgate : ∃ tag ∈ w.tags, Vocabulary.gate.recognizes tag = true := by decide +kernel
  have hfoundA : (find? v .safetyInterlock).isSome = true := by decide +kernel
  have hfoundB : (find? w .safetyInterlock).isSome = true := by decide +kernel
  obtain ⟨p, hp⟩ := Option.isSome_iff_exists.1 hfoundA
  obtain ⟨q, hq⟩ := Option.isSome_iff_exists.1 hfoundB
  obtain ⟨hpMem, hpKind⟩ := mem_detect_of_find? hp
  obtain ⟨hqMem, hqKind⟩ := mem_detect_of_find? hq
  have hblank : Text.isBlankText b.text = true := by decide +kernel
  have hvariantA := (hasVariant_of_mem_tags (.inl rfl) "Main" "R1").2 p hpMem hpKind
  have hvariantB := (hasVariant_of_mem_tags (.inr hblank) "Main" "R1").2 q hqMem hqKind
  exact ⟨⟨hstop, p, hpMem, hpKind, hvariantA.1 hstop⟩, hgate, q, hqMem, hqKind, hvariantB.2 hgate⟩

end Pattern

end LadderLogic
