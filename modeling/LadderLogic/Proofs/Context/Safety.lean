import LadderLogic.Proofs.Context.Isolation
import LadderLogic.Proofs.Pattern.Detection
import LadderLogic.Proofs.Vocabulary.Inclusion

/-! When a rung matters to safety. Its category adds nothing to the interlock and to the tags of that role, and
a rung with safety inputs matters to safety as well, but for scanners. -/
namespace LadderLogic

namespace Category

theorem ofPatterns_eq_safety {kind : PatternKind} {category : Category} (h : (kind, category) ∈ ofPatterns)
    (hsafety : category = .safety) : kind = .safetyInterlock := by
  subst hsafety
  revert h
  cases kind <;> decide

theorem ofStrongRole_eq_safety {role : Role} (h : ofStrongRole role = some .safety) : role = .safety := by
  cases role <;> simp_all [ofStrongRole]

theorem ofWeakRole_ne_safety (role : Role) : ofWeakRole role ≠ some .safety := by
  cases role <;> simp [ofWeakRole]

theorem ofOpcodes_ne_safety (v : View) (isFault : Bool) : ofOpcodes v isFault ≠ .safety := by
  unfold ofOpcodes
  split_ifs <;> simp

/-- The grounds on which the cascade may end in safety. -/
theorem interlock_or_role_of_ofView_eq_safety {v : View} {patterns : List Pattern} {graph : TagGraph}
    {statusOutputs : Nat} (h : ofView v patterns graph statusOutputs = .safety) :
    Pattern.fired patterns .safetyInterlock = true ∨ ∃ t ∈ v.tags, graph.roleOf t = .safety := by
  -- One case for each exit of the cascade.
  simp only [ofView] at h
  split at h
  · cases h
  · split at h
    · next kind category hfind =>
      left
      have hmem := List.mem_of_find?_eq_some hfind
      have hfired := List.find?_some hfind
      rwa [ofPatterns_eq_safety hmem h] at hfired
    · split at h
      · next category hstrong =>
        right
        obtain ⟨role, hrole, hcategory⟩ := List.exists_of_findSome?_eq_some hstrong
        obtain ⟨t, ht, rfl⟩ := List.mem_map.1 hrole
        exact ⟨t, ht, ofStrongRole_eq_safety (hcategory.trans (congrArg some h))⟩
      · split at h
        · next category hweak =>
          obtain ⟨role, -, hcategory⟩ := List.exists_of_findSome?_eq_some hweak
          exact absurd (hcategory.trans (congrArg some h)) (ofWeakRole_ne_safety role)
        · exact absurd h (ofOpcodes_ne_safety v _)

end Category

namespace Context

/-- Of the grounds for safety, the category may be left out. -/
theorem safetyRelevant_iff {v : View} {graph : TagGraph} {settings : Settings} :
    (ofView v graph settings).safetyRelevant = true ↔
      Pattern.fired (Pattern.detect v) .safetyInterlock = true ∨ ∃ t ∈ v.tags, graph.roleOf t = .safety := by
  have hgrounds : (ofView v graph settings).safetyRelevant = true ↔
      (Pattern.fired (Pattern.detect v) .safetyInterlock = true ∨
        (ofView v graph settings).category = .safety) ∨ ∃ t ∈ v.tags, graph.roleOf t = .safety := by
    simp only [ofView, isSafetyRelevant, Bool.or_eq_true, List.any_eq_true, beq_iff_eq]
  rw [hgrounds]
  constructor
  · rintro ((hfired | hcategory) | hrole)
    · exact .inl hfired
    · exact Category.interlock_or_role_of_ofView_eq_safety hcategory
    · exact .inr hrole
  · rintro (hfired | hrole)
    · exact .inl (.inl hfired)
    · exact .inr hrole

/-- A rung matters to safety if it shows an interlock or uses a tag of that role, and on no other
ground. The settings have no part in it, although they can turn a rung of safety into one that
reports status. -/
theorem safetyRelevant_ofView (v : View) (graph : TagGraph) (settings other : Settings) :
    let c := ofView v graph settings
    (c.safetyRelevant = true ↔
        (∃ p ∈ c.patterns, p.kind = .safetyInterlock) ∨ ∃ t ∈ v.tags, graph.roleOf t = .safety) ∧
      (c.category = .safety → c.safetyRelevant = true) ∧
      (ofView v graph other).safetyRelevant = c.safetyRelevant := by
  intro c
  have hpatterns : c.patterns = Pattern.detect v := rfl
  refine ⟨?_, ?_, ?_⟩
  · rw [safetyRelevant_iff, hpatterns, Pattern.fired_eq_true_iff]
  · intro hcategory
    exact safetyRelevant_iff.2 (Category.interlock_or_role_of_ofView_eq_safety hcategory)
  · rw [Bool.eq_iff_iff, safetyRelevant_iff, safetyRelevant_iff]

theorem safetyRelevant_ofView_relay_status :
    let v := View.ofRung "Main" "R1" { number := 1, text := "XIC(MCR) OTE(A_OK) OTE(B_OK) OTE(C_OK)" }
    let narrow : Settings := { statusOverrideMinOutputs := 3 }
    ((ofView v .empty {}).category = .safety ∧ (ofView v .empty narrow).category = .statusMonitoring) ∧
      (ofView v .empty {}).safetyRelevant = true ∧ (ofView v .empty narrow).safetyRelevant = true := by
  intro v narrow
  have hcategories : (ofView v .empty {}).category = .safety ∧
      (ofView v .empty narrow).category = .statusMonitoring := by decide +kernel
  have hall := safetyRelevant_ofView v .empty {} narrow
  have hrelevant := hall.2.1 hcategories.1
  exact ⟨hcategories, hrelevant, hall.2.2.trans hrelevant⟩

end Context

theorem TagGraph.roleOf_of_safety {p : Project} {program routine : String} {rung : Rung}
    (h : p.HasRung program routine rung) {tag : String} (htag : tag ∈ (View.ofRung program routine rung).tags)
    (hsafety : Vocabulary.safety.recognizes tag = true) : (ofProject p).roleOf tag = .safety := by
  have hin : ((ofProject p).get? tag).isSome := isSome_get?_iff_mem_tags.2 ⟨program, routine, rung, h, htag⟩
  have htrim : Vocabulary.safety.recognizes (Text.trim tag) = true := by
    rwa [View.trim_eq_of_mem_tags htag]
  rw [roleOf_ofProject hin]
  exact Role.ofTag_of_safety htrim _

namespace Context

theorem mem_safetyInputs {v : View} {graph : TagGraph} {settings : Settings} {t : String} :
    t ∈ (ofView v graph settings).purposeDetail.safetyInputs ↔
      t ∈ v.inputs ∧ Purpose.isSafetyInput t = true :=
  List.mem_filter

/-- A rung that reports a safety input with a word of safety in its name matters to safety. Exactly
the rungs with a scanner may report safety inputs and not matter to it, namely those that neither
show an interlock nor use a tag of the role. -/
theorem safetyRelevant_of_safetyInputs {p : Project} {program routine : String} {rung : Rung}
    (h : p.HasRung program routine rung) (settings : Settings) :
    let v := View.ofRung program routine rung
    let graph := TagGraph.ofProject p
    let c := ofView v graph settings
    ((∃ t ∈ c.purposeDetail.safetyInputs, Vocabulary.safety.recognizes t = true) → c.safetyRelevant = true) ∧
      (c.purposeDetail.safetyInputs ≠ [] ∧ c.safetyRelevant = false ↔
        (∃ t ∈ v.inputs, (Vocabulary.words ["SCANNER"]).recognizes t = true) ∧
          Pattern.fired c.patterns .safetyInterlock = false ∧ ∀ t ∈ v.tags, graph.roleOf t ≠ .safety) := by
  intro v graph c
  have hnot : c.safetyRelevant = false ↔
      Pattern.fired c.patterns .safetyInterlock = false ∧ ∀ t ∈ v.tags, graph.roleOf t ≠ .safety := by
    have hpatterns : c.patterns = Pattern.detect v := rfl
    rw [← Bool.not_eq_true, safetyRelevant_iff, not_or, Bool.not_eq_true, hpatterns]
    simp only [not_exists, not_and, ne_eq]
  have htags : ∀ t ∈ v.inputs, t ∈ v.tags := fun t ht => View.mem_tags.2 ⟨.read, ht⟩
  have hrole : ∀ t ∈ v.inputs, Vocabulary.safety.recognizes t = true → graph.roleOf t = .safety :=
    fun t ht => TagGraph.roleOf_of_safety h (htags t ht)
  constructor
  · rintro ⟨t, ht, hsafety⟩
    have hinput := (mem_safetyInputs.1 ht).1
    exact safetyRelevant_iff.2 (.inr ⟨t, htags t hinput, hrole t hinput hsafety⟩)
  · rw [hnot]
    constructor
    · rintro ⟨hne, hfired, hroles⟩
      obtain ⟨t, ht⟩ := List.exists_mem_of_ne_nil _ hne
      obtain ⟨hinput, hsafetyInput⟩ := mem_safetyInputs.1 ht
      rcases Purpose.safety_or_scanner_of_isSafetyInput hsafetyInput with hsafety | hscanner
      · exact absurd (hrole t hinput hsafety) (hroles t (htags t hinput))
      · exact ⟨⟨t, hinput, hscanner⟩, hfired, hroles⟩
    · rintro ⟨⟨t, hinput, hscanner⟩, hfired, hroles⟩
      have ht : t ∈ c.purposeDetail.safetyInputs :=
        mem_safetyInputs.2 ⟨hinput, Purpose.isSafetyInput_of_scanner hscanner⟩
      exact ⟨List.ne_nil_of_mem ht, hfired, hroles⟩

theorem safetyRelevant_of_safetyInputs_guarded_scanner :
    let rung : Rung := { number := 1, text := "XIC(Scanner) XIO(Door)" }
    let p : Project := { programs := [{ name := "Main", routines := [{ name := "R1", rungs := [rung] }] }] }
    let c := ofView (View.ofRung "Main" "R1" rung) (.ofProject p) {}
    (p.HasRung "Main" "R1" rung ∧
        ∃ t ∈ c.purposeDetail.safetyInputs, Vocabulary.safety.recognizes t = true) ∧
      c.safetyRelevant = true := by
  intro rung p c
  have h : p.HasRung "Main" "R1" rung := by decide +kernel
  have hinput : ∃ t ∈ c.purposeDetail.safetyInputs, Vocabulary.safety.recognizes t = true := by decide +kernel
  exact ⟨⟨h, hinput⟩, (safetyRelevant_of_safetyInputs h {}).1 hinput⟩

theorem safetyInputs_of_lone_scanner :
    let rung : Rung := { number := 1, text := "XIC(Scanner) OTE(Run)" }
    let p : Project := { programs := [{ name := "Main", routines := [{ name := "R1", rungs := [rung] }] }] }
    let c := ofView (View.ofRung "Main" "R1" rung) (.ofProject p) {}
    p.HasRung "Main" "R1" rung ∧ c.purposeDetail.safetyInputs = ["Scanner"] ∧
      c.keyPoints = ["Safety inputs Scanner must be healthy"] ∧ c.safetyRelevant = false := by
  decide +kernel

end Context

end LadderLogic
