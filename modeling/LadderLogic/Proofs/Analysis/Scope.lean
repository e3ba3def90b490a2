import LadderLogic.Proofs.Analysis.Contexts
import LadderLogic.Proofs.Context.Isolation
import LadderLogic.Proofs.Tag.Declarations
import LadderLogic.Proofs.Vocabulary.Inclusion

/-! What the tag table of one program tells about the rungs of other programs: the descriptions of tags that it
has the last word on and whose name does not tell a role. -/
namespace LadderLogic

namespace Project

/-- What the last declaration of a tag says about it, be it one of the controller or of any program. -/
def descriptionOf (p : Project) (tag : String) : Option String :=
  (Tag.lastNamed (p.tags ++ p.programs.flatMap (·.tags)) tag).bind (·.description)

end Project

/-- Two projects that have a rung agree on its tags if they describe those whose name tells no role
alike. -/
theorem TagGraph.agreeOn_ofProject_of_descriptionOf {p q : Project} {program routine : String} {rung : Rung}
    (hp : p.HasRung program routine rung) (hq : q.HasRung program routine rung)
    (htags : ∀ tag ∈ (View.ofRung program routine rung).tags,
      Role.ofName tag = .unknown → p.descriptionOf tag = q.descriptionOf tag) :
    AgreeOn (View.ofRung program routine rung).tags (ofProject p) (ofProject q) := by
  apply agreeOn_ofProject_of_ofTag hp hq
  intro tag htag
  rw [Project.get?_declaredTags, Project.get?_declaredTags]
  by_cases hname : Role.ofName tag = .unknown
  · exact congrArg (Role.ofTag tag) (htags tag htag hname)
  · rw [Role.ofTag_of_ofName_ne_unknown hname, Role.ofTag_of_ofName_ne_unknown hname]

namespace Project

/-- The project in which the program `owner`, between the programs `before` and `after`, has a given
table of tags. -/
def withTable (controller : List Tag) (before : List Program) (owner : Program) (after : List Program)
    (table : List Tag) : Project :=
  { programs := before ++ { owner with tags := table } :: after, tags := controller }

variable (controller : List Tag) (before : List Program) (owner : Program) (after : List Program)
  (old new : List Tag)

theorem rungs_withTable :
    (withTable controller before owner after old).rungs = (withTable controller before owner after new).rungs := by
  simp only [withTable, rungs, List.flatMap_append, List.flatMap_cons]

theorem hasRung_withTable (program routine : String) (rung : Rung) :
    (withTable controller before owner after old).HasRung program routine rung ↔
      (withTable controller before owner after new).HasRung program routine rung := by
  have hmem : ∀ table, (withTable controller before owner after table).HasRung program routine rung ↔
      (⟨program, routine, rung.number⟩, rung) ∈ (withTable controller before owner after table).rungs := by
    intro table
    rw [mem_rungs]
    exact (and_iff_left rfl).symm
  rw [hmem, hmem, rungs_withTable controller before owner after old new]

theorem descriptionOf_withTable (table : List Tag) (tag : String) :
    (withTable controller before owner after table).descriptionOf tag =
      ((Tag.lastNamed (after.flatMap (·.tags)) tag).or ((Tag.lastNamed table tag).or
        (Tag.lastNamed (controller ++ before.flatMap (·.tags)) tag))).bind (·.description) := by
  unfold descriptionOf
  simp only [withTable, List.flatMap_append, List.flatMap_cons, ← List.append_assoc, Tag.lastNamed_append]

/-- A table has a say only in the tags that it declares, and not in those that a later program
declares. -/
theorem declares_of_descriptionOf_ne {tag : String}
    (h : (withTable controller before owner after old).descriptionOf tag ≠
      (withTable controller before owner after new).descriptionOf tag) :
    tag ∈ (old ++ new).map (·.name) ∧ tag ∉ (after.flatMap (·.tags)).map (·.name) := by
  rw [descriptionOf_withTable, descriptionOf_withTable] at h
  refine ⟨?_, fun hafter => ?_⟩
  · by_contra hnone
    rw [List.map_append, List.mem_append, not_or, ← Tag.isSome_lastNamed, ← Tag.isSome_lastNamed] at hnone
    rw [Option.not_isSome_iff_eq_none.1 hnone.1, Option.not_isSome_iff_eq_none.1 hnone.2] at h
    exact h rfl
  · obtain ⟨t, ht⟩ := Option.isSome_iff_exists.1 (Tag.isSome_lastNamed.2 hafter)
    rw [ht] at h
    exact h rfl

end Project

theorem Context.ofView_withTable (controller : List Tag) (before : List Program) (owner : Program)
    (after : List Program) (old new : List Tag) {program routine : String} {rung : Rung}
    (hrung : (Project.withTable controller before owner after old).HasRung program routine rung)
    (htags : ∀ tag ∈ (View.ofRung program routine rung).tags, Role.ofName tag = .unknown →
      (Project.withTable controller before owner after old).descriptionOf tag =
        (Project.withTable controller before owner after new).descriptionOf tag)
    (settings : Settings) :
    let c := ofView (View.ofRung program routine rung)
      (.ofProject (.withTable controller before owner after old)) settings
    let d := ofView (View.ofRung program routine rung)
      (.ofProject (.withTable controller before owner after new)) settings
    c.category = d.category ∧ c.safetyRelevant = d.safetyRelevant := by
  intro c d
  have hrung' := (Project.hasRung_withTable controller before owner after old new program routine rung).1 hrung
  have hagree := TagGraph.agreeOn_ofProject_of_descriptionOf hrung hrung' htags
  simp only [c, d, ofView, hagree.category, hagree.isSafetyRelevant, and_self]

namespace Analysis

open Project (withTable)

/-- A program's table of tags can be replaced by any other one without a change to the category of a
rung or to whether the rung matters to safety, unless the rung uses a tag whose name tells no role and
which comes to be described otherwise. This holds for the rungs of all programs and for what is filed
under their keys. The replacement can describe otherwise only tags that one of the tables declares and
no later program does. -/
theorem categories_withTable (controller : List Tag) (before : List Program) (owner : Program)
    (after : List Program) (old new : List Tag) (settings : Settings) :
    let p := withTable controller before owner after old
    let q := withTable controller before owner after new
    (∀ program routine rung, p.HasRung program routine rung →
      (∀ tag ∈ (View.ofRung program routine rung).tags,
        Role.ofName tag = .unknown → p.descriptionOf tag = q.descriptionOf tag) →
      let c := Context.ofView (View.ofRung program routine rung) (.ofProject p) settings
      let d := Context.ofView (View.ofRung program routine rung) (.ofProject q) settings
      c.category = d.category ∧ c.safetyRelevant = d.safetyRelevant) ∧
      (∀ key, Option.Rel
        (fun c d => (∀ tag ∈ c.inputs ++ c.outputs,
            Role.ofName tag = .unknown → p.descriptionOf tag = q.descriptionOf tag) →
          c.category = d.category ∧ c.safetyRelevant = d.safetyRelevant)
        ((ofProject p settings).contexts.get? key) ((ofProject q settings).contexts.get? key)) ∧
      ∀ tag, p.descriptionOf tag ≠ q.descriptionOf tag →
        tag ∈ (old ++ new).map (·.name) ∧ tag ∉ (after.flatMap (·.tags)).map (·.name) := by
  intro p q
  refine ⟨fun program routine rung hrung htags => ?_, fun key => ?_, fun tag h => ?_⟩
  · exact Context.ofView_withTable controller before owner after old new hrung htags settings
  · have hrungs : q.rungs = p.rungs := Project.rungs_withTable controller before owner after new old
    rw [get?_contexts, get?_contexts, hrungs]
    -- What is filed under the key is the context of one rung, and both projects have that rung.
    cases hlast : (p.rungs.filter fun r => r.1.key = key).getLast? with
    | none => exact .none
    | some r =>
      obtain ⟨⟨program, routine, n⟩, rung⟩ := r
      have hmem := (List.mem_filter.1 (List.mem_of_getLast? hlast)).1
      have hrung := (Project.mem_rungs.1 hmem).1
      refine .some fun htags => ?_
      apply Context.ofView_withTable controller before owner after old new hrung _ settings
      intro tag htag
      exact htags tag (List.mem_eraseDups.1 htag)
  · exact Project.declares_of_descriptionOf_ne controller before owner after old new h

theorem categories_withTable_hidden :
    let rung : Rung := { number := 1, text := "XIC(X1) XIC(PB_Start) OTE(Y1)" }
    let main : Program := { name := "Main", routines := [{ name := "R1", rungs := [rung] }] }
    let last : Program := { name := "Last", tags := [{ name := "Y1" }] }
    let stop (name : String) : Tag := { name, description := some "emergency stop" }
    let p := withTable [] [main] { name := "Aux" } [last] []
    let q := withTable [] [main] { name := "Aux" } [last] [{ name := "X1" }, stop "PB_Start", stop "Y1"]
    let v := View.ofRung "Main" "R1" rung
    (p.HasRung "Main" "R1" rung ∧
        ∀ tag ∈ v.tags, Role.ofName tag = .unknown → p.descriptionOf tag = q.descriptionOf tag) ∧
      (Context.ofView v (.ofProject p) {}).category = (Context.ofView v (.ofProject q) {}).category := by
  intro rung main last stop p q v
  have hrung : p.HasRung "Main" "R1" rung := by decide +kernel
  have htags : ∀ tag ∈ v.tags, Role.ofName tag = .unknown → p.descriptionOf tag = q.descriptionOf tag := by
    decide +kernel
  obtain ⟨hviews, -⟩ := categories_withTable [] [main] { name := "Aux" } [last] []
    [{ name := "X1" }, stop "PB_Start", stop "Y1"] {}
  exact ⟨⟨hrung, htags⟩, (hviews "Main" "R1" rung hrung htags).1⟩

/-- A tag of one program that has no declaration of its own is described by the table of another one,
although that program does not use it. -/
theorem safetyRelevant_of_foreign_table :
    let rung : Rung := { number := 1, text := "XIC(X1) OTE(Y1)" }
    let other : Rung := { number := 1, text := "XIC(X2) OTE(Y2)" }
    let main : Program := { name := "Main", routines := [{ name := "R1", rungs := [rung] }] }
    let aux : Program := { name := "Aux", routines := [{ name := "R1", rungs := [other] }] }
    let p (table : List Tag) : Project := withTable [] [main] aux [] table
    let found (table : List Tag) :=
      ((ofProject (p table) {}).contexts.get? "Main/R1:1").map fun c => (c.category, c.safetyRelevant)
    (((p []).programs.map (·.name)).Nodup ∧
        ∀ tag ∈ (View.ofRung "Main" "R1" rung).tags, tag ∉ (View.ofRung "Aux" "R1" other).tags) ∧
      found [] = some (.generalLogic, false) ∧
      found [{ name := "X1", scope := "Aux", description := some "emergency stop" }] = some (.safety, true) := by
  decide +kernel

end Analysis

end LadderLogic
