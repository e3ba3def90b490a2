import LadderLogic.Proofs.Tag.Related
import Mathlib.Data.Finset.Card

/-! The declarations of tags against their uses. The tables of a project are one list, and the last declaration
of a name counts. -/
namespace LadderLogic

namespace Tag

/-- The declaration of a name that counts among several. -/
def lastNamed (tags : List Tag) (name : String) : Option Tag :=
  (tags.filter fun t => t.name = name).getLast?

theorem lastNamed_append (tags later : List Tag) (name : String) :
    lastNamed (tags ++ later) name = (lastNamed later name).or (lastNamed tags name) := by
  unfold lastNamed
  rw [List.filter_append, List.getLast?_append]

theorem isSome_lastNamed {tags : List Tag} {name : String} :
    (lastNamed tags name).isSome ↔ name ∈ tags.map (·.name) := by
  unfold lastNamed
  rw [List.getLast?_isSome]
  simp [List.filter_eq_nil_iff]

/-- The declaration is one of the name, and none behind it is. -/
def IsLastNamed (tags : List Tag) (name : String) (d : Tag) : Prop :=
  ∃ earlier later, tags = earlier ++ d :: later ∧ d.name = name ∧ ∀ t ∈ later, t.name ≠ name

theorem lastNamed_eq_some_iff {tags : List Tag} {name : String} {d : Tag} :
    lastNamed tags name = some d ↔ IsLastNamed tags name d := by
  unfold lastNamed
  rw [List.getLast?_eq_some_iff]
  constructor
  · rintro ⟨others, hfilter⟩
    obtain ⟨earlier, rest, rfl, -, hrest⟩ := List.filter_eq_append_iff.1 hfilter
    obtain ⟨between, later, rfl, -, hname, hlater⟩ := List.filter_eq_cons_iff.1 hrest
    refine ⟨earlier ++ between, later, ?_, of_decide_eq_true hname, ?_⟩
    · rw [List.append_assoc]
    · simpa using hlater
  · rintro ⟨earlier, later, rfl, hname, hlater⟩
    refine ⟨earlier.filter fun t => t.name = name, ?_⟩
    have hnone : (later.filter fun t => t.name = name) = [] := by simpa using hlater
    rw [List.filter_append, List.filter_cons_of_pos (by simpa using hname), hnone]

end Tag

namespace Project

/-- All declarations: those of the controller, then those of each program. -/
def declarations (p : Project) : List Tag :=
  p.tags ++ p.programs.flatMap (·.tags)

theorem get?_declaredTags (p : Project) (name : String) :
    p.declaredTags.get? name = Tag.lastNamed p.declarations name := by
  unfold declaredTags
  rw [NameMap.get?_ofList, List.filter_map, List.getLast?_map, Option.map_map]
  exact Option.map_id'

theorem mem_names_declaredTags {p : Project} {name : String} :
    name ∈ p.declaredTags.names ↔ name ∈ p.declarations.map (·.name) := by
  rw [NameMap.mem_names, get?_declaredTags, Tag.isSome_lastNamed]

/-- Each name has one entry, however often it is declared. -/
theorem size_declaredTags (p : Project) :
    p.declaredTags.size = (p.declarations.map (·.name)).toFinset.card := by
  have hnames : (p.declarations.map (·.name)).toFinset = p.declaredTags.names.toFinset := by
    ext name
    rw [List.mem_toFinset, List.mem_toFinset, mem_names_declaredTags]
  rw [hnames, List.toFinset_card_of_nodup p.declaredTags.pairwise_names.nodup]
  exact (List.length_map _).symm

/-- Somewhere an instruction uses an operand that is the tag. -/
def UsesTag (p : Project) (tag : String) : Prop :=
  ∃ entry ∈ p.rungs, ∃ i ∈ entry.2.allInstructions, ∃ operand usage,
    (operand, usage) ∈ i.usedOperands ∧ Operand.isTag operand ∧ Text.trim operand = tag

theorem usesTag_iff {p : Project} {tag : String} :
    p.UsesTag tag ↔ ∃ usage, p.operandsUsing tag usage ≠ [] := by
  simp only [operandsUsing_eq_flatMap_rungs, ne_eq, List.flatMap_eq_nil_iff, not_forall]
  constructor
  · rintro ⟨entry, hentry, i, hi, operand, usage, hused, htag, htrim⟩
    have hmem : ⟨entry.1, i.opcode, usage⟩ ∈ i.operandsUsing entry.1 tag usage :=
      Instruction.mem_operandsUsing.2 ⟨rfl, operand, hused, htag, htrim⟩
    exact ⟨usage, entry, hentry, i, hi, List.ne_nil_of_mem hmem⟩
  · rintro ⟨usage, entry, hentry, i, hi, hne⟩
    obtain ⟨r, hr⟩ := List.exists_mem_of_ne_nil _ hne
    obtain ⟨-, operand, hused, htag, htrim⟩ := Instruction.mem_operandsUsing.1 hr
    exact ⟨entry, hentry, i, hi, operand, usage, hused, htag, htrim⟩

end Project

theorem Role.ofTag_eq_ite (name : String) (description : Option String) :
    ofTag name description =
      if ofName name = .unknown then (description.map ofName).getD .unknown else ofName name := by
  unfold ofTag
  split
  · next h => rw [if_pos h]
  · next h => rw [if_neg h]

/-- What is known about a tag besides its uses is what the last declaration of its name says. The
name tells the role, or else the description of that declaration does. -/
structure TagUsage.IsDeclaredBy (declarations : List Tag) (t : TagUsage) : Prop where
  declared : ∀ d, Tag.IsLastNamed declarations t.name d →
    t.dataType = (if d.dataType = "" then none else some d.dataType) ∧ t.description = d.description
  undeclared : t.name ∉ declarations.map (·.name) → t.dataType = none ∧ t.description = none
  role : t.role =
    if Role.ofName t.name = .unknown then (t.description.map Role.ofName).getD .unknown else Role.ofName t.name

theorem TagUsage.isDeclaredBy_describe {declared : NameMap Tag} {declarations : List Tag}
    (h : ∀ name, declared.get? name = Tag.lastNamed declarations name) (t : TagUsage) :
    (t.describe declared).IsDeclaredBy declarations := by
  have hname : (t.describe declared).name = t.name := by simp only [describe]
  constructor
  · intro d hd
    have hget : declared.get? t.name = some d := by
      rw [h, Tag.lastNamed_eq_some_iff, ← hname]
      exact hd
    simp only [describe, hget, Option.bind_some, String.isEmpty_iff, and_self]
  · intro hnone
    have hget : declared.get? t.name = none := by
      rw [h, ← Option.not_isSome_iff_eq_none, Tag.isSome_lastNamed, ← hname]
      exact hnone
    simp only [describe, hget, Option.bind_none, and_self]
  · simp only [describe, Role.ofTag_eq_ite]

namespace TagGraph

theorem declared_ofProject (p : Project) : (ofProject p).declared = p.declaredTags := rfl

theorem mem_names_ofProject {p : Project} {tag : String} : tag ∈ (ofProject p).tags.names ↔ p.UsesTag tag := by
  rw [NameMap.mem_names, Project.usesTag_iff]
  exact isSome_get?_ofProject

theorem mem_unreferenced_ofProject {p : Project} {tag : String} :
    tag ∈ (ofProject p).unreferenced ↔ tag ∈ p.declarations.map (·.name) ∧ ¬p.UsesTag tag := by
  rw [← mem_names_ofProject, NameMap.mem_names, unreferenced, List.mem_filter, declared_ofProject,
    Project.mem_names_declaredTags, NameMap.contains_eq, Bool.not_eq_true', Bool.not_eq_true]

/-- The declared names that are used are the used names that are declared. -/
theorem filter_names_ofProject (p : Project) :
    ((ofProject p).declared.names.filter fun name => (ofProject p).tags.contains name) =
      (ofProject p).tags.names.filter fun name => name ∈ p.declarations.map (·.name) := by
  apply ((ofProject p).declared.pairwise_names.filter _).eq_of_mem_iff ((ofProject p).tags.pairwise_names.filter _)
  intro name
  rw [List.mem_filter, List.mem_filter, declared_ofProject, Project.mem_names_declaredTags, NameMap.contains_eq,
    ← NameMap.mem_names, decide_eq_true_iff]
  exact and_comm

/-- What the graph knows about a tag is what the last declaration of its name says. The graph counts
each declared name once. The names without a use are listed in ascending order, and the other declared
names are those of the graph's tags that are declared. -/
theorem declarations_ofProject (p : Project) :
    (∀ tag t, (ofProject p).get? tag = some t → t.name = tag ∧ t.IsDeclaredBy p.declarations) ∧
      (ofProject p).declared.size = (p.declarations.map (·.name)).toFinset.card ∧
      (ofProject p).unreferenced.Pairwise (· < ·) ∧
      (∀ name, name ∈ (ofProject p).unreferenced ↔
        name ∈ p.declarations.map (·.name) ∧ ¬p.UsesTag name) ∧
      (ofProject p).declared.size =
        ((ofProject p).tags.names.filter fun name => name ∈ p.declarations.map (·.name)).length +
          (ofProject p).unreferenced.length := by
  refine ⟨fun tag t ht => ⟨name_of_get?_ofProject ht, ?_⟩, ?_, ?_, ?_, ?_⟩
  · rw [get?_ofProject] at ht
    split at ht
    · rw [← Option.some.inj ht]
      exact TagUsage.isDeclaredBy_describe p.get?_declaredTags _
    · cases ht
  · rw [declared_ofProject, Project.size_declaredTags]
  · exact (ofProject p).declared.pairwise_names.filter _
  · intro name
    exact mem_unreferenced_ofProject
  · have hlength : (ofProject p).declared.size = (ofProject p).declared.names.length :=
      (List.length_map _).symm
    rw [hlength, ← filter_names_ofProject]
    exact List.length_eq_length_filter_add _

/-- The program's declaration says less than the controller's, and counts all the same. -/
theorem declarations_ofProject_hidden :
    let hidden : Tag := { name := "X1", dataType := "DINT", description := some "emergency stop" }
    let routine : Routine := { name := "R1", rungs := [{ number := 1, text := "XIC(X1) OTE(Y1)" }] }
    let p : Project :=
      { programs := [{ name := "Main", routines := [routine], tags := [{ name := "X1" }] }]
        tags := [hidden, { name := "Spare" }] }
    Tag.IsLastNamed p.declarations "X1" { name := "X1" } ∧ "Spare" ∈ (ofProject p).unreferenced ∧
      ∃ t, (ofProject p).get? "X1" = some t ∧ t.dataType = none ∧ t.description = none := by
  intro hidden routine p
  obtain ⟨hdeclared, -, -, hunreferenced, -⟩ := declarations_ofProject p
  have hlast : Tag.IsLastNamed p.declarations "X1" { name := "X1" } :=
    ⟨[hidden, { name := "Spare" }], [], rfl, rfl, by simp⟩
  have hspare : ¬p.UsesTag "Spare" := by
    rw [← mem_names_ofProject]
    decide +kernel
  obtain ⟨t, ht⟩ : ∃ t, (ofProject p).get? "X1" = some t :=
    Option.isSome_iff_exists.1 (by decide +kernel)
  obtain ⟨hname, hdescribed⟩ := hdeclared "X1" t ht
  obtain ⟨htype, hdescription⟩ := hdescribed.declared _ (hname ▸ hlast)
  exact ⟨hlast, (hunreferenced "Spare").2 ⟨by decide +kernel, hspare⟩, t, ht, htype, hdescription⟩

end TagGraph

end LadderLogic
