import LadderLogic.Context.Basic
import LadderLogic.Proofs.Pattern.Tags

/-! The names in what is concluded about a rung. All are tags that the rung reads or writes, but for the coil of
a chain of permissives. -/
namespace LadderLogic

/-- Tags without blanks around them, once each. -/
structure View.IsTagList (names : List String) : Prop where
  nodup : names.Nodup
  trimmed : ∀ t ∈ names, Text.trim t = t
  isTag : ∀ t ∈ names, Operand.isTag t = true

theorem View.isTagList_tagsUsed (is : List Instruction) (wanted : Usage → Bool) :
    IsTagList (tagsUsed is wanted) where
  nodup := nodup_tagsUsed is wanted
  trimmed _ := trim_eq_of_mem_tagsUsed
  isTag _ := isTag_of_mem_tagsUsed

theorem View.Coherent.isTagList_tagsFor {v : View} (hv : v.Coherent) (usage : Usage) :
    IsTagList (v.tagsFor usage) := by
  rw [hv.tagsFor_eq]
  exact isTagList_tagsUsed v.instructions (· == usage)

namespace Purpose

/-- The names of the purpose are among these inputs and outputs, and it counts the outputs. -/
structure DrawsOn (p : Purpose) (inputs outputs : List String) : Prop where
  mem_of_primaryOutput : ∀ t, p.primaryOutput = some t → t ∈ outputs
  primaryOutput_eq_none : p.primaryOutput = none ↔ outputs = []
  nodup_conditions : p.conditions.Nodup
  conditions_subset : p.conditions ⊆ inputs
  nodup_safetyInputs : p.safetyInputs.Nodup
  safetyInputs_subset : p.safetyInputs ⊆ inputs
  extraOutputs_eq : p.extraOutputs = outputs.length - 1

theorem mem_of_primaryOf {outputs : List String} {t : String} (h : primaryOf outputs = some t) :
    t ∈ outputs := by
  unfold primaryOf at h
  split at h
  · next found hfind =>
    cases h
    exact List.mem_of_find?_eq_some hfind
  · exact List.mem_of_head? h

theorem primaryOf_eq_none_iff {outputs : List String} : primaryOf outputs = none ↔ outputs = [] := by
  unfold primaryOf
  split
  · next found hfind =>
    have hne : outputs ≠ [] := List.ne_nil_of_mem (List.mem_of_find?_eq_some hfind)
    simp [hne]
  · exact List.head?_eq_none_iff

theorem drawsOn_ofView {v : View} (hv : v.Coherent) (patterns : List Pattern) (category : Category)
    (subsystems : List String) :
    (ofView v patterns category subsystems).DrawsOn v.inputs v.outputs where
  mem_of_primaryOutput _ := mem_of_primaryOf
  primaryOutput_eq_none := primaryOf_eq_none_iff
  nodup_conditions := nodup_eraseDups _
  conditions_subset := by
    intro t ht
    rcases List.mem_append.1 (List.mem_eraseDups.1 ht) with hread | hread
    · exact hv.tagsUsed_subset_tagsFor (v.having_subset Opcode.contacts) .read hread
    · exact hv.tagsUsed_subset_tagsFor (v.having_subset Opcode.comparisons) .read hread
  nodup_safetyInputs := (hv.isTagList_tagsFor .read).nodup.filter _
  safetyInputs_subset := List.filter_subset_self _
  extraOutputs_eq := rfl

end Purpose

namespace Pattern

/-- The names of the pattern are among these inputs and outputs. A chain of permissives may have others,
and a likely mistake may have a name twice. -/
structure DrawsOn (p : Pattern) (inputs outputs : List String) : Prop where
  mem_of_mem_tags : p.kind ≠ .permissiveChain → ∀ t ∈ p.tags, t ∈ inputs ∨ t ∈ outputs
  nodup_tags : p.kind ≠ .permissiveChain → p.kind ≠ .codeConcern → p.tags.Nodup

theorem drawsOn_of_mem_detect {v : View} (hv : v.Coherent) {p : Pattern} (h : p ∈ detect v) :
    p.DrawsOn v.inputs v.outputs := by
  obtain ⟨f, hf, hp⟩ := exists_finding_of_mem_detect h
  have htags : p.tags = f.tags := by rw [hp]
  constructor
  · intro hchain t ht
    rw [htags] at ht
    have hmem : t ∈ v.tags := PatternKind.subset_tags_rule hv hchain hf ht
    exact List.mem_append.1 (List.mem_eraseDups.1 hmem)
  · intro hchain hconcern
    rw [htags]
    exact (PatternKind.picks_rule hv hchain hconcern hf).nodup

end Pattern

namespace Context

/-- The names of the conclusions are the inputs and outputs that they have. -/
structure DrawsOnTags (c : Context) : Prop where
  inputs : View.IsTagList c.inputs
  outputs : View.IsTagList c.outputs
  purpose : c.purposeDetail.DrawsOn c.inputs c.outputs
  patterns : ∀ p ∈ c.patterns, p.DrawsOn c.inputs c.outputs

/-- Whatever the graph of tags and the settings are, the conclusions about a rung name its own tags. -/
theorem drawsOnTags_ofView (program routine : String) (rung : Rung) (graph : TagGraph) (settings : Settings) :
    (ofView (View.ofRung program routine rung) graph settings).DrawsOnTags := by
  have hv := View.coherent_ofRung program routine rung
  generalize View.ofRung program routine rung = v at hv
  refine ⟨?_, ?_, ?_, ?_⟩
  · exact hv.isTagList_tagsFor .read
  · exact hv.isTagList_tagsFor .write
  · exact Purpose.drawsOn_ofView hv _ _ _
  · intro p hp
    exact Pattern.drawsOn_of_mem_detect hv hp

-- A bit that is multiplied by itself is reported twice.
example :
    let v := View.ofRung "Main" "R1" { number := 1, text := "MUL(A_OK, A_OK ,Area)" }
    (Pattern.find? v .codeConcern).map (·.tags) = some ["A_OK", "A_OK"] := by
  decide +kernel

end Context

end LadderLogic
