import LadderLogic.Proofs.Context.Names

/-! What the sentence of a purpose surfaces: the primary output with the intent that its name tells, the first
subsystems and the first inputs of emergency stops, guards and gates. -/
namespace LadderLogic

namespace Text

theorem infix_append {part text : String} (h : part.toList <:+: text.toList) (rest : String) :
    part.toList <:+: (text ++ rest).toList := by
  rw [String.toList_append]
  exact h.trans (List.prefix_append _ _).isInfix

theorem infix_append_self (text part : String) : part.toList <:+: (text ++ part).toList := by
  rw [String.toList_append]
  exact (List.suffix_append _ _).isInfix

theorem infix_joined {separator name : String} {names : List String} (h : name ∈ names) :
    name.toList <:+: (joined separator names).toList := by
  rw [toList_joined]
  exact infix_intercalate (List.mem_map_of_mem h)

/-- A listing has its first names. -/
theorem infix_listing {name : String} {names : List String} {most : Nat} (h : name ∈ names.take most) :
    name.toList <:+: (listing names most).toList := by
  unfold listing
  split
  · exact infix_joined (List.mem_of_mem_take h)
  · have hfirst : name.toList <:+: (joined ", " (names.take most)).toList := infix_joined h
    exact infix_append (infix_append (infix_append hfirst _) _) _

end Text

namespace Template

/-- The sentence of the template names the outputs. -/
def NamesOutputs (template : Template) : Prop :=
  template ≠ .inputOnly ∧ template ≠ .empty

instance : DecidablePred NamesOutputs := fun template =>
  inferInstanceAs (Decidable (template ≠ .inputOnly ∧ template ≠ .empty))

theorem namesOutputs_ofPatterns : ∀ row ∈ ofPatterns, row.2.NamesOutputs := by
  decide

theorem namesOutputs_ofShape {v : View} (h : v.outputs ≠ []) : (ofShape v).NamesOutputs := by
  have hsome : v.outputs.isEmpty = false := List.isEmpty_eq_false_iff.2 h
  unfold ofShape
  rw [hsome]
  cases v.inputs.isEmpty <;> decide

/-- Whatever its patterns and its category are, a rung with an output has a template that names it. -/
theorem namesOutputs_ofView {v : View} (h : v.outputs ≠ []) (patterns : List Pattern) (category : Category) :
    (ofView v patterns category).NamesOutputs := by
  unfold ofView
  split
  · decide
  · split
    · next kind template hfind => exact namesOutputs_ofPatterns _ (List.mem_of_find?_eq_some hfind)
    · split
      · decide
      · decide
      · decide
      · -- Only here are the templates without outputs in reach.
        exact namesOutputs_ofShape h

end Template

namespace Purpose

/-- The first output whose name tells an intent or, if there is none, the first output. -/
def IsPrimary (outputs : List String) (tag : String) : Prop :=
  ∃ before after, outputs = before ++ tag :: after ∧ (∀ t ∈ before, Intent.ofName? t = none) ∧
    ((Intent.ofName? tag).isSome = true ∨ before = [] ∧ ∀ t ∈ outputs, Intent.ofName? t = none)

/-- An output with the intent that its name tells. -/
def outputText (tag : String) : String :=
  match Intent.ofName? tag with
  | some intent => tag ++ " (" ++ intent.phrase ++ ")"
  | none => tag

theorem isPrimary_of_primaryOf {outputs : List String} {tag : String} (h : primaryOf outputs = some tag) :
    IsPrimary outputs tag := by
  unfold primaryOf at h
  split at h
  · next found hfind =>
    cases h
    obtain ⟨hintent, before, after, houtputs, hbefore⟩ := List.find?_eq_some_iff_append.1 hfind
    exact ⟨before, after, houtputs, by simpa using hbefore, .inl hintent⟩
  · next hfind =>
    have hnone : ∀ t ∈ outputs, Intent.ofName? t = none := by simpa using hfind
    obtain ⟨after, rfl⟩ := List.head?_eq_some_iff.1 h
    exact ⟨[], after, rfl, by simp, .inr ⟨rfl, hnone⟩⟩

theorem IsPrimary.primaryOf_eq {outputs : List String} {tag : String} (h : IsPrimary outputs tag) :
    primaryOf outputs = some tag := by
  obtain ⟨before, after, rfl, hbefore, hintent | ⟨rfl, hnone⟩⟩ := h
  · have hfind : (before ++ tag :: after).find? (fun t => (Intent.ofName? t).isSome) = some tag :=
      List.find?_eq_some_iff_append.2 ⟨hintent, before, after, rfl, by simpa using hbefore⟩
    unfold primaryOf
    rw [hfind]
  · have hfind : ([] ++ tag :: after).find? (fun t => (Intent.ofName? t).isSome) = none :=
      List.find?_eq_none.2 fun t ht => by simp [hnone t ht]
    unfold primaryOf
    rw [hfind]
    rfl

theorem exists_isPrimary {outputs : List String} (h : outputs ≠ []) : ∃ tag, IsPrimary outputs tag := by
  obtain ⟨tag, htag⟩ := Option.ne_none_iff_exists'.1 (mt primaryOf_eq_none_iff.1 h)
  exact ⟨tag, isPrimary_of_primaryOf htag⟩

theorem infix_target {p : Purpose} {tag : String} (hprimary : p.primaryOutput = some tag)
    (hintent : p.intent = Intent.ofName? tag) : (outputText tag).toList <:+: p.target.toList := by
  have htarget : p.target = if 0 < p.extraOutputs
      then outputText tag ++ " and " ++ toString p.extraOutputs ++ " other output(s)" else outputText tag := by
    unfold target outputText
    rw [hprimary, hintent]
    cases Intent.ofName? tag <;> rfl
  rw [htarget]
  split
  · exact Text.infix_append (Text.infix_append (Text.infix_append (List.infix_refl _) _) _) _
  · exact List.infix_refl _

theorem infix_clause {p : Purpose} (h : p.template.NamesOutputs) : p.target.toList <:+: p.clause.toList := by
  unfold clause
  cases htemplate : p.template with
  | inputOnly => exact absurd htemplate h.1
  | empty => exact absurd htemplate h.2
  | _ => grind [Text.infix_append, Text.infix_append_self]

theorem infix_sentence_of_clause {p : Purpose} {part : String} (h : part.toList <:+: p.clause.toList) :
    part.toList <:+: p.sentence.toList :=
  Text.infix_append (Text.infix_append h _) _

theorem infix_sentence_of_subsystems {p : Purpose} {name : String} (h : name ∈ p.subsystems.take 3) :
    name.toList <:+: p.sentence.toList := by
  have hsome : p.subsystems.isEmpty = false :=
    List.isEmpty_eq_false_iff.2 (List.ne_nil_of_mem (List.mem_of_mem_take h))
  have hbracket : name.toList <:+: (" [" ++ Text.listing p.subsystems 3 ++ " subsystem]").toList :=
    Text.infix_append ((Text.infix_listing h).trans (Text.infix_append_self _ _)) _
  unfold sentence
  rw [hsome]
  exact Text.infix_append (hbracket.trans (Text.infix_append_self _ _)) _

theorem exists_callout {p : Purpose} (h : p.safetyInputs ≠ []) :
    ∃ before, p.sentence = before ++ ". Safety inputs: " ++ Text.listing p.safetyInputs 4 := by
  have hsome : p.safetyInputs.isEmpty = false := List.isEmpty_eq_false_iff.2 h
  unfold sentence
  rw [hsome]
  exact ⟨_, String.append_assoc.symm⟩

/-- The sentence names the primary output, with the intent that its name tells, and the first three subsystems, and
it calls out the first four inputs of emergency stops, guards and gates. This holds for all patterns, categories and
subsystems that a purpose can be given, not only for those of the rung. -/
theorem sentence_surfaces (v : View) (patterns : List Pattern) (category : Category) (subsystems : List String) :
    let text := (ofView v patterns category subsystems).sentence
    let safetyInputs := v.inputs.filter isSafetyInput
    (v.outputs ≠ [] → ∃ tag, IsPrimary v.outputs tag) ∧
      (∀ tag, IsPrimary v.outputs tag → (outputText tag).toList <:+: text.toList) ∧
      (∀ name ∈ subsystems.take 3, name.toList <:+: text.toList) ∧
      (safetyInputs ≠ [] → ∃ before callout, text = before ++ ". Safety inputs: " ++ callout ∧
        ∀ tag ∈ safetyInputs.take 4, tag.toList <:+: callout.toList) := by
  intro text safetyInputs
  refine ⟨exists_isPrimary, ?_, ?_, ?_⟩
  · intro tag htag
    have hprimary : (ofView v patterns category subsystems).primaryOutput = some tag := htag.primaryOf_eq
    have hintent : (ofView v patterns category subsystems).intent = Intent.ofName? tag :=
      congrArg (·.bind Intent.ofName?) hprimary
    have hne : v.outputs ≠ [] := by
      obtain ⟨before, after, houtputs, -⟩ := htag
      rw [houtputs]
      exact List.append_ne_nil_of_right_ne_nil _ (List.cons_ne_nil _ _)
    have hclause := infix_clause (p := ofView v patterns category subsystems)
      (Template.namesOutputs_ofView hne patterns category)
    exact infix_sentence_of_clause ((infix_target hprimary hintent).trans hclause)
  · intro name hname
    exact infix_sentence_of_subsystems hname
  · intro hne
    obtain ⟨before, htext⟩ := exists_callout (p := ofView v patterns category subsystems) hne
    exact ⟨before, _, htext, fun _ htag => Text.infix_listing htag⟩

theorem sentence_surfaces_move :
    let v := View.ofRung "Main" "R1"
      { number := 1, text := "XIC(E_Stop) XIO(Door1) MOV(Scanner,Rate) OTE(Pump1_Running) OTE(Line_OK)" }
    let text := (ofView v [] .dataMove ["Pump", "Gate"]).sentence
    (IsPrimary v.outputs "Pump1_Running" ∧ "Gate" ∈ ["Pump", "Gate"].take 3 ∧
        "Scanner" ∈ (v.inputs.filter isSafetyInput).take 4) ∧
      "Pump1_Running (running indication)".toList <:+: text.toList ∧ "Gate".toList <:+: text.toList ∧
      ∃ before callout, text = before ++ ". Safety inputs: " ++ callout ∧ "Scanner".toList <:+: callout.toList := by
  intro v text
  have houtputs : v.outputs = ["Rate"] ++ "Pump1_Running" :: ["Line_OK"] := by decide +kernel
  have hsafety : v.inputs.filter isSafetyInput = ["E_Stop", "Door1", "Scanner"] := by decide +kernel
  have hprimary : IsPrimary v.outputs "Pump1_Running" :=
    ⟨["Rate"], ["Line_OK"], houtputs, by decide +kernel, .inl (by decide +kernel)⟩
  have hscanner : "Scanner" ∈ (v.inputs.filter isSafetyInput).take 4 := by
    rw [hsafety]
    decide
  have hshown : outputText "Pump1_Running" = "Pump1_Running (running indication)" := by decide +kernel
  have hgate : "Gate" ∈ ["Pump", "Gate"].take 3 := by decide
  obtain ⟨-, houtput, hsubsystem, hcallout⟩ := sentence_surfaces v [] .dataMove ["Pump", "Gate"]
  obtain ⟨before, callout, htext, hnamed⟩ := hcallout (List.ne_nil_of_mem (List.mem_of_mem_take hscanner))
  have hrunning := houtput "Pump1_Running" hprimary
  rw [hshown] at hrunning
  exact ⟨⟨hprimary, hgate, hscanner⟩, hrunning, hsubsystem "Gate" hgate, before, callout, htext,
    hnamed "Scanner" hscanner⟩

end Purpose

end LadderLogic
