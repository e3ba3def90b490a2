import LadderLogic.Proofs.Tag.References

/-! The tag graph of a project that is surveyed shard by shard. A shard is a part of the programs. What the
declarations tell about a tag is told again from the whole project, since the declaration that counts may stand
in any shard. -/
namespace LadderLogic

/-- The references of a later shard after those of an earlier one, without rungs that are known. -/
def mergeReferences (rs ss : List Reference) : List Reference :=
  rs ++ ss.filter fun s => s.location ∉ rs.map (·.location)

theorem firstPerRung_append_eq_merge (rs ss : List Reference) :
    firstPerRung (rs ++ ss) = mergeReferences (firstPerRung rs) (firstPerRung ss) := by
  unfold mergeReferences
  simp only [firstPerRung_append, mem_location_firstPerRung]

theorem mergeReferences_nil (rs : List Reference) : mergeReferences rs [] = rs := by
  simp [mergeReferences]

theorem nil_mergeReferences (ss : List Reference) : mergeReferences [] ss = ss := by
  simp [mergeReferences]

namespace TagUsage

/-- A tag with the references of an earlier shard and those of a later one. -/
def merge (t u : TagUsage) : TagUsage :=
  { t with
    readers := mergeReferences t.readers u.readers
    writers := mergeReferences t.writers u.writers }

theorem met_append (xs ys : List Sighting) (tag : String) :
    met (xs ++ ys) tag = (met xs tag).merge (met ys tag) := by
  have huses : ∀ usage,
      Sighting.usesIn (xs ++ ys) tag usage = Sighting.usesIn xs tag usage ++ Sighting.usesIn ys tag usage := by
    intro usage
    unfold Sighting.usesIn
    rw [List.filter_append, List.map_append]
  unfold met merge
  simp only [huses, firstPerRung_append_eq_merge]

theorem met_append_of_not_mem_right {xs ys : List Sighting} {tag : String} (h : tag ∉ ys.map (·.tag)) :
    met (xs ++ ys) tag = met xs tag := by
  rw [met_append, met_of_not_mem h]
  simp only [merge, ofName, mergeReferences_nil]

theorem met_append_of_not_mem_left {xs ys : List Sighting} {tag : String} (h : tag ∉ xs.map (·.tag)) :
    met (xs ++ ys) tag = met ys tag := by
  rw [met_append, met_of_not_mem h]
  simp only [merge, ofName, met, nil_mergeReferences]

/-- What is told about a tag takes the place of what was told before. -/
theorem describe_describe (declared known : NameMap Tag) (t : TagUsage) :
    (t.describe known).describe declared = t.describe declared := by
  simp only [describe]

theorem describe_merge_left (declared known : NameMap Tag) (t u : TagUsage) :
    ((t.describe known).merge u).describe declared = (t.merge u).describe declared := by
  simp only [describe, merge]

theorem merge_describe_right (known : NameMap Tag) (t u : TagUsage) :
    t.merge (u.describe known) = t.merge u := by
  simp only [describe, merge]

end TagUsage

/-- The tags of all shards, merged by name in the order of the shards. -/
def mergeTags (shards : List (NameMap TagUsage)) : NameMap TagUsage :=
  shards.foldl (NameMap.merge TagUsage.merge) .empty

theorem map_describe_merge_map (declared known : NameMap Tag) (m m' : NameMap TagUsage) :
    ((m.map (TagUsage.describe known)).merge TagUsage.merge m').map (TagUsage.describe declared) =
      (m.merge TagUsage.merge m').map (TagUsage.describe declared) := by
  apply NameMap.ext_get?
  intro name
  simp only [NameMap.get?_map, NameMap.get?_merge]
  cases m.get? name with
  | none => rfl
  | some t =>
    cases m'.get? name with
    | none => simp only [Option.map_some, Option.merge, TagUsage.describe_describe]
    | some u => simp only [Option.map_some, Option.merge, TagUsage.describe_merge_left]

theorem Project.sightings_append (A B : List Program) (tags : List Tag) :
    Project.sightings ⟨A ++ B, tags⟩ = Project.sightings ⟨A, tags⟩ ++ Project.sightings ⟨B, tags⟩ := by
  simp only [Project.sightings, Project.rungs, List.flatMap_append]

namespace TagGraph

/-- The references of one kind to a tag; a tag that the graph does not have has none. -/
def referencesTo (g : TagGraph) (tag : String) (usage : Usage) : List Reference :=
  ((g.get? tag).map (·.referencesFor usage)).getD []

theorem referencesTo_ofProject (p : Project) (tag : String) (usage : Usage) :
    (ofProject p).referencesTo tag usage = firstPerRung (p.operandsUsing tag usage) := by
  unfold referencesTo
  cases hget : (ofProject p).get? tag with
  | some t => exact referencesFor_of_get?_ofProject hget usage
  | none =>
    rw [operandsUsing_eq_nil_of_get?_eq_none hget usage]
    rfl

theorem get?_ofProject_append (A B : List Program) (tags : List Tag) (tag : String) :
    (ofProject ⟨A ++ B, tags⟩).get? tag =
      (Option.merge TagUsage.merge ((ofProject ⟨A, tags⟩).get? tag) ((ofProject ⟨B, tags⟩).get? tag)).map
        (.describe (Project.declaredTags ⟨A ++ B, tags⟩)) := by
  rw [get?_ofProject, get?_ofProject, get?_ofProject, Project.sightings_append, List.map_append]
  -- The tag is met in both shards, in one of them or in none.
  by_cases hA : tag ∈ (Project.sightings ⟨A, tags⟩).map (·.tag)
  · rw [if_pos (List.mem_append_left _ hA), if_pos hA]
    by_cases hB : tag ∈ (Project.sightings ⟨B, tags⟩).map (·.tag)
    · simp only [if_pos hB, TagUsage.met_append, Option.merge, Option.map_some, TagUsage.describe_merge_left,
        TagUsage.merge_describe_right]
    · simp only [if_neg hB, TagUsage.met_append_of_not_mem_right hB, Option.merge, Option.map_some,
        TagUsage.describe_describe]
  · rw [if_neg hA]
    by_cases hB : tag ∈ (Project.sightings ⟨B, tags⟩).map (·.tag)
    · simp only [if_pos (List.mem_append_right _ hB), if_pos hB, TagUsage.met_append_of_not_mem_left hA,
        Option.merge, Option.map_some, TagUsage.describe_describe]
    · rw [if_neg hB, if_neg fun h => (List.mem_append.1 h).elim hA hB]
      rfl

theorem tags_ofProject_append (A B : List Program) (tags : List Tag) :
    (ofProject ⟨A ++ B, tags⟩).tags =
      ((ofProject ⟨A, tags⟩).tags.merge TagUsage.merge (ofProject ⟨B, tags⟩).tags).map
        (.describe (Project.declaredTags ⟨A ++ B, tags⟩)) := by
  apply NameMap.ext_get?
  intro tag
  rw [NameMap.get?_map, NameMap.get?_merge]
  exact get?_ofProject_append A B tags tag

theorem tags_ofProject_flatten (shards : List (List Program)) (tags : List Tag) :
    (ofProject ⟨shards.flatten, tags⟩).tags =
      (mergeTags (shards.map fun shard => (ofProject ⟨shard, tags⟩).tags)).map
        (.describe (Project.declaredTags ⟨shards.flatten, tags⟩)) := by
  induction shards using List.reverseRecOn with
  | nil => rfl
  | append_singleton shards shard ih =>
    have hstep : mergeTags ((shards ++ [shard]).map fun shard => (ofProject ⟨shard, tags⟩).tags) =
        (mergeTags (shards.map fun shard => (ofProject ⟨shard, tags⟩).tags)).merge TagUsage.merge
          (ofProject ⟨shard, tags⟩).tags := by
      unfold mergeTags
      rw [List.map_append, List.foldl_append]
      rfl
    rw [hstep, List.flatten_append, List.flatten_singleton, tags_ofProject_append, ih, map_describe_merge_map]

/-- A tag of two shards has the references of the first shard and then those of the second one from
rungs that the first does not have, and the two shards together have the tags of both. So shards can be
surveyed each on its own and merged by name in their order, also where programs and routines in
different shards have one name. The merged tags are then described again from the declarations of the
whole project. -/
theorem ofProject_shards (tags : List Tag) :
    (∀ (A B : List Program) (tag : String) (usage : Usage),
      let earlier := (ofProject ⟨A, tags⟩).referencesTo tag usage
      let later := (ofProject ⟨B, tags⟩).referencesTo tag usage
      (ofProject ⟨A ++ B, tags⟩).referencesTo tag usage =
        earlier ++ later.filter fun r => r.location ∉ earlier.map (·.location)) ∧
      (∀ (A B : List Program) (tag : String),
        tag ∈ (ofProject ⟨A ++ B, tags⟩).tags.names ↔
          tag ∈ (ofProject ⟨A, tags⟩).tags.names ∨ tag ∈ (ofProject ⟨B, tags⟩).tags.names) ∧
      ∀ shards : List (List Program),
        let whole : Project := ⟨shards.flatten, tags⟩
        let merged := mergeTags (shards.map fun shard => (ofProject ⟨shard, tags⟩).tags)
        ofProject whole = { tags := merged.map (.describe whole.declaredTags), declared := whole.declaredTags } := by
  refine ⟨?_, ?_, ?_⟩
  · intro A B tag usage earlier later
    have happend : Project.operandsUsing ⟨A ++ B, tags⟩ tag usage =
        Project.operandsUsing ⟨A, tags⟩ tag usage ++ Project.operandsUsing ⟨B, tags⟩ tag usage :=
      List.flatMap_append
    simp only [earlier, later, referencesTo_ofProject]
    rw [happend, firstPerRung_append_eq_merge]
    rfl
  · intro A B tag
    rw [NameMap.mem_names, NameMap.mem_names, NameMap.mem_names, tags_ofProject_append, NameMap.get?_map,
      NameMap.get?_merge]
    cases (ofProject ⟨A, tags⟩).tags.get? tag <;> cases (ofProject ⟨B, tags⟩).tags.get? tag <;> simp
  · intro shards whole merged
    have htags : (ofProject whole).tags = merged.map (.describe whole.declaredTags) :=
      tags_ofProject_flatten shards tags
    rw [← htags]
    rfl

end TagGraph

end LadderLogic
