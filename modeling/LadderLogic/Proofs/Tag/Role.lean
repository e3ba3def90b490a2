import LadderLogic.Proofs.Context.Safety
import LadderLogic.Proofs.Vocabulary.Trimming

/-! The roles of tags and the vocabularies of the rules. A role is that of the first vocabulary in a table, so
that a name with a word of safety, faults or sequences has that role or one that goes before it. -/
namespace LadderLogic

namespace Vocabulary

/-- The vocabularies that rules have in common with the table of roles. -/
def shared : List Vocabulary := [safety, fault, sequence]

theorem isSolid_of_mem_shared : ∀ v ∈ shared, ∀ t ∈ v, t.isSolid = true := by
  decide

end Vocabulary

namespace Role

open Vocabulary (words)

/-- If one of the first rows of the table recognizes a name, one of them decides about it. -/
theorem ofName_mem_take {name : String} {n : Nat} {v : Vocabulary} {role : Role}
    (hrow : (v, role) ∈ vocabularies.take n) (hv : v.recognizes (Text.trim name) = true) :
    ofName name ∈ (vocabularies.take n).map (·.2) := by
  unfold ofName
  split
  · next v' role' hfind =>
    rw [← List.take_append_drop n vocabularies, List.find?_append] at hfind
    rcases Option.or_eq_some_iff.1 hfind with hfirst | ⟨hnone, -⟩
    · exact List.mem_map.2 ⟨_, List.mem_of_find?_eq_some hfirst, rfl⟩
    · exact absurd hv (List.find?_eq_none.1 hnone _ hrow)
  · next hnone => exact absurd hv (List.find?_eq_none.1 hnone _ (List.mem_of_mem_take hrow))

theorem ofName_of_recognizes_safety {name : String} (h : Vocabulary.safety.recognizes name = true) :
    ofName name = .safety :=
  ofName_of_safety (Vocabulary.recognizes_trim (Vocabulary.isSolid_of_mem_shared _ (by decide)) h)

theorem ofName_of_recognizes_fault {name : String} (h : Vocabulary.fault.recognizes name = true) :
    ofName name = .safety ∨ ofName name = .fault := by
  have htrim := Vocabulary.recognizes_trim (Vocabulary.isSolid_of_mem_shared _ (by decide)) h
  have hrow : (Vocabulary.fault ++ words ["ALARM", "ALM"], Role.fault) ∈ vocabularies.take 2 := by
    simp [vocabularies]
  have hv : Vocabulary.recognizes (Vocabulary.fault ++ words ["ALARM", "ALM"]) (Text.trim name) = true := by
    rw [Vocabulary.recognizes_append, htrim, Bool.true_or]
  simpa [vocabularies] using ofName_mem_take hrow hv

theorem ofName_of_recognizes_sequence {name : String} (h : Vocabulary.sequence.recognizes name = true) :
    ofName name ∈ [.safety, .fault, .timer, .counter, .sequence] := by
  have htrim := Vocabulary.recognizes_trim (Vocabulary.isSolid_of_mem_shared _ (by decide)) h
  have hrow : (Vocabulary.sequence, Role.sequence) ∈ vocabularies.take 5 := by
    simp [vocabularies]
  exact ofName_mem_take hrow htrim

end Role

/-- The graph knows the tags of every rung. Where the name of a tag tells a role, that is the role in the
graph. -/
theorem TagGraph.exists_get?_of_mem_tags {p : Project} {program routine : String} {rung : Rung}
    (h : p.HasRung program routine rung) {tag : String} (htag : tag ∈ (View.ofRung program routine rung).tags)
    (hrole : Role.ofName tag ≠ .unknown) :
    ∃ t, (ofProject p).get? tag = some t ∧ t.role = Role.ofName tag := by
  have hin : ((ofProject p).get? tag).isSome := isSome_get?_iff_mem_tags.2 ⟨program, routine, rung, h, htag⟩
  obtain ⟨t, ht⟩ := Option.isSome_iff_exists.1 hin
  have hrole' := roleOf_ofProject hin
  rw [Role.ofTag_of_ofName_ne_unknown hrole, roleOf, ht] at hrole'
  exact ⟨t, ht, hrole'⟩

theorem Vocabulary.mem_select {v : Vocabulary} {names : List String} {name : String} :
    name ∈ v.select names ↔ name ∈ names ∧ v.recognizes name = true := by
  unfold select
  rw [List.mem_eraseDups, List.mem_filter]

namespace Rule

theorem tags_of_safetyInterlock {v : View} {f : Finding} (h : safetyInterlock v = some f) :
    f.tags = Vocabulary.safety.select v.tags := by
  obtain ⟨rest, rfl⟩ := eq_of_safetyInterlock h
  rfl

theorem isSome_faultDetection {v : View} :
    (faultDetection v).isSome = true ↔ ∃ tag ∈ v.tags, Vocabulary.fault.recognizes tag = true := by
  have hselect : (∃ tag ∈ v.tags, Vocabulary.fault.recognizes tag = true) ↔
      (Vocabulary.fault.select v.tags).isEmpty = false := by
    rw [List.isEmpty_eq_false_iff_exists_mem]
    simp only [Vocabulary.mem_select]
  rw [hselect]
  simp only [faultDetection]
  cases (Vocabulary.fault.select v.tags).isEmpty <;> simp

end Rule

namespace Role

/-- A name with a word of safety, emergency stops or gates has the role of safety. A name with a word of
faults has that role or goes to safety, and one with a word of sequences has that role or one of the four
before it. So whatever is declared about them, the tags of an interlock are tags of safety in the graph, and
a rung with a fault has a tag of faults or of safety there. -/
theorem ofName_agrees_with_vocabularies :
    (∀ name : String,
      (Vocabulary.safety.recognizes name = true ∨ Vocabulary.emergencyStop.recognizes name = true ∨
          Vocabulary.gate.recognizes name = true → ofName name = .safety) ∧
        (Vocabulary.fault.recognizes name = true → ofName name = .safety ∨ ofName name = .fault) ∧
        (Vocabulary.sequence.recognizes name = true →
          ofName name ∈ [.safety, .fault, .timer, .counter, .sequence])) ∧
      ∀ (p : Project) (program routine : String) (rung : Rung), p.HasRung program routine rung →
        let v := View.ofRung program routine rung
        let graph := TagGraph.ofProject p
        (∀ q ∈ Pattern.detect v, q.kind = .safetyInterlock →
            ∀ tag ∈ q.tags, ∃ t, graph.get? tag = some t ∧ t.role = .safety) ∧
          (Pattern.fired (Pattern.detect v) .faultDetection = true →
            ∃ tag ∈ v.tags, ∃ t, graph.get? tag = some t ∧ (t.role = .safety ∨ t.role = .fault)) := by
  constructor
  · intro name
    refine ⟨?_, ofName_of_recognizes_fault, ofName_of_recognizes_sequence⟩
    rintro (hsafety | hstop | hgate)
    · exact ofName_of_recognizes_safety hsafety
    · exact ofName_of_recognizes_safety
        (Vocabulary.recognizes_of_subset Vocabulary.emergencyStop_subset_safety hstop)
    · exact ofName_of_recognizes_safety (Vocabulary.recognizes_of_subset Vocabulary.gate_subset_safety hgate)
  · intro p program routine rung hrung v graph
    constructor
    · intro q hq hkind tag htag
      obtain ⟨f, hf, hpattern⟩ := Pattern.exists_finding_of_mem_detect hq
      rw [hkind] at hf
      rw [hpattern, Rule.tags_of_safetyInterlock hf] at htag
      obtain ⟨htag, hsafety⟩ := Vocabulary.mem_select.1 htag
      have hrole := ofName_of_recognizes_safety hsafety
      have hknown : ofName tag ≠ .unknown := by
        rw [hrole]
        decide
      rw [← hrole]
      exact TagGraph.exists_get?_of_mem_tags hrung htag hknown
    · intro hfired
      obtain ⟨tag, htag, hfault⟩ := Rule.isSome_faultDetection.1 (Pattern.fired_detect_iff.1 hfired)
      have hrole := ofName_of_recognizes_fault hfault
      have hknown : ofName tag ≠ .unknown := by
        rcases hrole with hrole | hrole <;> rw [hrole] <;> decide
      obtain ⟨t, ht, heq⟩ := TagGraph.exists_get?_of_mem_tags hrung htag hknown
      rw [← heq] at hrole
      exact ⟨tag, htag, t, ht, hrole⟩

/-- Descriptions that tell other roles, and names with blanks around them. -/
theorem ofName_agrees_with_vocabularies_described :
    let rung : Rung := { number := 1, text := "XIC( e_stop ) XIO(Strip.Trip) OTE(Run)" }
    let p : Project :=
      { programs := [{ name := "Main", routines := [{ name := "R1", rungs := [rung] }] }]
        tags := [{ name := "e_stop", description := some "motor fault" },
          { name := "Strip.Trip", description := some "valve" }] }
    let v := View.ofRung "Main" "R1" rung
    let graph := TagGraph.ofProject p
    ((Vocabulary.gate.recognizes " Door_Fault\t" = true ∧ Vocabulary.sequence.recognizes "\u3000Step_Timer" = true) ∧
        ofName " Door_Fault\t" = .safety ∧
        ofName "\u3000Step_Timer" ∈ [.safety, .fault, .timer, .counter, .sequence]) ∧
      (p.HasRung "Main" "R1" rung ∧ (Pattern.find? v .safetyInterlock).map (·.tags) = some ["e_stop"] ∧
        Pattern.fired (Pattern.detect v) .faultDetection = true) ∧
      (∃ t, graph.get? "e_stop" = some t ∧ t.role = .safety) ∧
      ∃ tag ∈ v.tags, ∃ t, graph.get? tag = some t ∧ (t.role = .safety ∨ t.role = .fault) := by
  intro rung p v graph
  obtain ⟨hnames, hrungs⟩ := ofName_agrees_with_vocabularies
  have hgate : Vocabulary.gate.recognizes " Door_Fault\t" = true := by decide +kernel
  have hstep : Vocabulary.sequence.recognizes "\u3000Step_Timer" = true := by decide +kernel
  have hrung : p.HasRung "Main" "R1" rung := by decide +kernel
  have htags : (Pattern.find? v .safetyInterlock).map (·.tags) = some ["e_stop"] := by decide +kernel
  have hfault : (PatternKind.faultDetection.rule v).isSome = true := by decide +kernel
  have hfired := Pattern.fired_detect_iff.2 hfault
  obtain ⟨q, hfind, hq⟩ := Option.map_eq_some_iff.1 htags
  obtain ⟨hmem, hkind⟩ := Pattern.mem_detect_of_find? hfind
  obtain ⟨hsafety, hfaulty⟩ := hrungs p "Main" "R1" rung hrung
  refine ⟨⟨⟨hgate, hstep⟩, (hnames _).1 (.inr (.inr hgate)), (hnames _).2.2 hstep⟩, ⟨hrung, htags, hfired⟩, ?_,
    hfaulty hfired⟩
  refine hsafety q hmem hkind "e_stop" ?_
  rw [hq]
  exact List.mem_singleton_self _

end Role

end LadderLogic
