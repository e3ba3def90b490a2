import LadderLogic.Proofs.Analysis.Contexts
import LadderLogic.Proofs.Analysis.RoundTrip
import LadderLogic.Proofs.Rung.Extent
import LadderLogic.Proofs.Tag.References

/-! The analysis of a project is read back from its text: no count in it exceeds what is written in the project,
so that 64 bits are enough. -/
namespace LadderLogic

namespace Project

/-- The length of what is written in the rungs, and the number of declared tags. -/
def extent (p : Project) : Nat :=
  (p.rungs.map fun (_, r) => r.extent).sum + (p.tags ++ p.programs.flatMap (·.tags)).length

theorem length_rungs_le_extent (p : Project) : p.rungs.length ≤ p.extent := by
  have hone : ∀ n ∈ p.rungs.map fun (_, r) => r.extent, 1 ≤ n := by
    intro n hn
    obtain ⟨⟨_, r⟩, -, rfl⟩ := List.mem_map.1 hn
    exact Nat.le_add_left 1 _
  have hle := List.length_le_sum_of_one_le _ hone
  rw [List.length_map] at hle
  exact Nat.le_add_right_of_le hle

theorem extent_le_of_mem_rungs {p : Project} {location : Location} {r : Rung} (h : (location, r) ∈ p.rungs) :
    r.extent ≤ p.extent :=
  Nat.le_add_right_of_le (List.le_sum_of_mem (List.mem_map.2 ⟨_, h, rfl⟩))

theorem length_sightings_le_extent (p : Project) : p.sightings.length ≤ p.extent := by
  unfold sightings
  rw [List.length_flatMap]
  exact Nat.le_add_right_of_le (List.sum_le_sum fun (location, r) _ => r.length_sightings_le location)

theorem size_declaredTags_le_extent (p : Project) : p.declaredTags.size ≤ p.extent := by
  let declarations := p.tags ++ p.programs.flatMap (·.tags)
  have hsize : p.declaredTags.size ≤ (declarations.map (·.name)).length := by
    refine NameMap.size_le fun name hname => ?_
    rw [declaredTags, NameMap.get?_ofList, Option.isSome_map, List.getLast?_isSome] at hname
    obtain ⟨e, he⟩ := List.exists_mem_of_ne_nil _ hname
    obtain ⟨hmem, hname⟩ := List.mem_filter.1 he
    obtain ⟨t, ht, rfl⟩ := List.mem_map.1 hmem
    exact List.mem_map.2 ⟨t, ht, of_decide_eq_true hname⟩
  rw [List.length_map] at hsize
  exact Nat.le_add_left_of_le hsize

end Project

theorem length_firstPerRung_le (rs : List Reference) : (firstPerRung rs).length ≤ rs.length := by
  induction rs with
  | nil => exact Nat.le_refl 0
  | cons r rs ih =>
    have hfilter := List.length_filter_le (fun s => decide (s.location ≠ r.location)) (firstPerRung rs)
    exact Nat.succ_le_succ (hfilter.trans ih)

/-- A use of a tag reads it or writes it, but not both. -/
theorem Sighting.length_usesIn_le (xs : List Sighting) (tag : String) :
    (usesIn xs tag .read).length + (usesIn xs tag .write).length ≤ xs.length := by
  induction xs using List.reverseRecOn with
  | nil => exact Nat.le_refl 0
  | append_singleton xs x ih =>
    simp only [usesIn_concat, List.length_append, List.length_singleton]
    by_cases htag : x.tag = tag
    · cases x.reference.usage <;> simp [htag] <;> omega
    · simp [htag]
      omega

namespace TagGraph

theorem size_tags_ofProject_le (p : Project) : (ofProject p).tags.size ≤ p.sightings.length := by
  have hsize : (ofProject p).tags.size ≤ (p.sightings.map (·.tag)).length := by
    refine NameMap.size_le fun name hname => ?_
    have hget := get?_ofProject p name
    rw [get?] at hget
    rw [hget] at hname
    split at hname
    · assumption
    · cases hname
  rwa [List.length_map] at hsize

theorem length_unreferenced_ofProject_le (p : Project) :
    (ofProject p).unreferenced.length ≤ p.declaredTags.size := by
  refine (List.length_filter_le _ _).trans ?_
  exact (List.length_map _).le

theorem referenceCount_le_of_get?_ofProject {p : Project} {tag : String} {t : TagUsage}
    (h : (ofProject p).get? tag = some t) : t.referenceCount ≤ p.sightings.length := by
  have hreaders := referencesFor_of_get?_ofProject h .read
  have hwriters := referencesFor_of_get?_ofProject h .write
  rw [← Project.usesIn_sightings] at hreaders hwriters
  calc t.referenceCount
      = (t.referencesFor .read).length + (t.referencesFor .write).length := rfl
    _ ≤ (Sighting.usesIn p.sightings tag .read).length + (Sighting.usesIn p.sightings tag .write).length := by
        rw [hreaders, hwriters]
        exact Nat.add_le_add (length_firstPerRung_le _) (length_firstPerRung_le _)
    _ ≤ p.sightings.length := Sighting.length_usesIn_le p.sightings tag

end TagGraph

theorem KeyTag.fits_of_mem_ofGraph {p : Project} (h : p.extent < UInt64.size) {settings : Settings} {t : KeyTag}
    (ht : t ∈ ofGraph (.ofProject p) settings) : t.Fits := by
  have hsorted := (perm_sortedBy _ _).mem_iff.1 (List.mem_of_mem_take ht)
  obtain ⟨u, hu, rfl⟩ := List.mem_map.1 hsorted
  obtain ⟨e, he, rfl⟩ := List.mem_map.1 (List.mem_filter.1 hu).1
  have hget : (TagGraph.ofProject p).get? e.1 = some e.2 := NameMap.get?_eq_some_of_mem he
  have hcount := TagGraph.referenceCount_le_of_get?_ofProject hget
  have hsightings := p.length_sightings_le_extent
  have hsum : e.2.referenceCount = e.2.readers.length + e.2.writers.length := rfl
  constructor <;> simp only [ofUsage] <;> omega

namespace BranchGroup

/-- Adding a branch brings its own index into the groups and no other. -/
theorem mem_branches_add {topic : Topic} {index : Nat} {tags : List String} {groups : List BranchGroup}
    {g : BranchGroup} (hg : g ∈ add topic index tags groups) {i : Nat} (hi : i ∈ g.branches) :
    i = index ∨ ∃ g' ∈ groups, i ∈ g'.branches := by
  induction groups with
  | nil =>
    obtain rfl := List.mem_singleton.1 hg
    exact Or.inl (List.mem_singleton.1 hi)
  | cons g' groups ih =>
    rw [add] at hg
    split at hg
    · rcases List.mem_cons.1 hg with rfl | hg
      · rcases List.mem_append.1 hi with hi | hi
        · exact Or.inr ⟨g', List.mem_cons_self, hi⟩
        · exact Or.inl (List.mem_singleton.1 hi)
      · exact Or.inr ⟨g, List.mem_cons_of_mem _ hg, hi⟩
    · rcases List.mem_cons.1 hg with rfl | hg
      · exact Or.inr ⟨g, List.mem_cons_self, hi⟩
      · exact (ih hg).imp_right fun ⟨g'', hg'', hi''⟩ => ⟨g'', List.mem_cons_of_mem _ hg'', hi''⟩

theorem mem_branches_foldl {graph : TagGraph} {branches : List Branch} {groups : List BranchGroup}
    {g : BranchGroup}
    (hg : g ∈ branches.foldl (fun groups b => add (b.topic graph) b.index b.tags groups) groups)
    {i : Nat} (hi : i ∈ g.branches) :
    (∃ b ∈ branches, b.index = i) ∨ ∃ g' ∈ groups, i ∈ g'.branches := by
  induction branches generalizing groups with
  | nil => exact Or.inr ⟨g, hg, hi⟩
  | cons b branches ih =>
    rcases ih hg with ⟨b', hb', hindex⟩ | ⟨g', hg', hi'⟩
    · exact Or.inl ⟨b', List.mem_cons_of_mem _ hb', hindex⟩
    · rcases mem_branches_add hg' hi' with rfl | hgroups
      · exact Or.inl ⟨b, List.mem_cons_self, rfl⟩
      · exact Or.inr hgroups

theorem exists_branch_of_mem_ofView {v : View} {graph : TagGraph} {g : BranchGroup} (hg : g ∈ ofView v graph)
    {i : Nat} (hi : i ∈ g.branches) : ∃ b ∈ v.circuit.branches, b.index = i := by
  unfold ofView at hg
  split at hg
  · cases hg
  · rcases mem_branches_foldl hg hi with hbranch | ⟨g', hg', -⟩
    · exact hbranch
    · cases hg'

end BranchGroup

theorem Context.fits_ofView {v : View} (houtputs : v.outputs.length < UInt64.size)
    (hbranches : v.circuit.branches.length < UInt64.size)
    (hindex : ∀ b ∈ v.circuit.branches, b.index < v.circuit.branches.length) (graph : TagGraph)
    (settings : Settings) : (ofView v graph settings).Fits where
  isLevel _ hp := Pattern.isLevel_of_mem_detect hp
  extraOutputs := (Nat.sub_le _ 1).trans_lt houtputs
  branchCount := hbranches
  branches g hg i hi := by
    obtain ⟨b, hb, rfl⟩ := BranchGroup.exists_branch_of_mem_ofView hg hi
    exact (hindex b hb).trans hbranches

theorem Context.fits_ofRung {r : Rung} (h : r.extent < UInt64.size) (program routine : String) (graph : TagGraph)
    (settings : Settings) : (ofView (View.ofRung program routine r) graph settings).Fits := by
  have hcircuit : (View.ofRung program routine r).circuit =
      Circuit.ofText (View.ofRung program routine r).text := rfl
  have htext := View.length_text_ofRung_le program routine r
  apply fits_ofView
  · exact (View.length_outputs_ofRung_le program routine r).trans_lt h
  · rw [hcircuit]
    exact ((Circuit.length_branches_ofText_le _).trans htext).trans_lt h
  · rw [hcircuit]
    exact fun b hb => Circuit.index_lt_of_mem_branches hb

namespace Summary

theorem fits_ofContexts {p : Project} (h : p.extent < UInt64.size) {contexts : List Context}
    (hlength : contexts.length = p.rungs.length)
    (hkinds : ∀ c ∈ contexts, (c.patterns.map (·.kind)).Nodup) (settings : Settings) :
    (ofContexts contexts (.ofProject p) settings).Fits := by
  have hcontexts : contexts.length < UInt64.size := hlength ▸ p.length_rungs_le_extent.trans_lt h
  have hcountP (q : Context → Bool) : contexts.countP q < UInt64.size :=
    List.countP_le_length.trans_lt hcontexts
  refine ⟨hcontexts, hcountP _, hcountP _, hcountP _, hcountP _, ?_, ?_, ?_, ?_, ?_⟩
  · exact ((TagGraph.size_tags_ofProject_le p).trans p.length_sightings_le_extent).trans_lt h
  · exact ((TagGraph.length_unreferenced_ofProject_le p).trans p.size_declaredTags_le_extent).trans_lt h
  · -- A rule reports at most one pattern of its kind on a rung.
    rintro ⟨kind, n⟩ he
    have htallies := tallies_histogram PatternKind.mem_all PatternKind.pairwise_all
      ((contexts.flatMap (·.patterns)).map (·.kind))
    rw [((htallies.mem_iff kind n).1 he).2, ← Context.countP_fired hkinds]
    exact hcountP _
  · rintro ⟨category, n⟩ he
    have htallies := tallies_histogram Category.mem_all Category.pairwise_all (contexts.map (·.category))
    rw [((htallies.mem_iff category n).1 he).2, List.count_eq_countP, List.countP_map]
    exact hcountP _
  · intro t ht
    exact KeyTag.fits_of_mem_ofGraph h ht

end Summary

namespace Analysis

theorem fits_ofProject {p : Project} (h : p.extent < UInt64.size) (settings : Settings) :
    (ofProject p settings).Fits := by
  refine ⟨?_, ?_, ?_⟩
  · intro pattern hpattern
    obtain ⟨e, he, hpattern⟩ := List.mem_flatMap.1 hpattern
    obtain ⟨⟨location, r⟩, -, rfl⟩ := List.mem_map.1 he
    exact Pattern.isLevel_of_mem_detect hpattern
  · intro e he
    have hget := NameMap.get?_eq_some_of_mem he
    rw [get?_contexts] at hget
    obtain ⟨⟨location, r⟩, hlast, hcontext⟩ := Option.map_eq_some_iff.1 hget
    have hmem := (List.mem_filter.1 (List.mem_of_getLast? hlast)).1
    rw [← hcontext]
    exact Context.fits_ofRung ((Project.extent_le_of_mem_rungs hmem).trans_lt h) _ _ _ _
  · apply Summary.fits_ofContexts h
    · simp [contextsOf]
    · intro c hc
      obtain ⟨e, he, rfl⟩ := List.mem_map.1 hc
      obtain ⟨⟨location, r⟩, -, rfl⟩ := List.mem_map.1 he
      exact Pattern.nodup_kind_detect _

/-- The text of an analysis is read as the analysis that was written, whichever of its members are
blank and left out, and written again it is the same text. The project is one that 64 bits can
address. -/
theorem readText_compact_ofProject {p : Project} (h : p.extent < UInt64.size) (settings : Settings) :
    let a := ofProject p settings
    Json.readText record.decode a.toJson.compact = .ok a ∧
      (Json.readText record.decode a.toJson.compact).map (·.toJson.compact) = .ok a.toJson.compact := by
  intro a
  have hread : Json.readText record.decode a.toJson.compact = .ok a :=
    (fits_ofProject h settings).reads_toJson.readText_eq
  refine ⟨hread, ?_⟩
  rw [hread]
  rfl

theorem readText_compact_ofProject_branches :
    let p : Project :=
      { programs := [{ name := "Main", routines := [{ name := "R1", rungs := [
            { number := 0, text := "XIC(Start)[XIC(EStop),XIO(Fault)]OTE(Pump)" },
            { number := 1, instructions := [{ kind := "NOP" }] }] }] }]
        tags := [{ name := "Pump", dataType := "BOOL", description := some "Feed pump" }] }
    let a := ofProject p {}
    p.extent < UInt64.size ∧
      a.contexts.entries.map (fun e => e.2.branchGroups.map (·.branches)) = [[[0], [1]], []] ∧
      a.tagUsage.entries.map (fun e => (e.1, e.2.description)) =
        [("EStop", none), ("Fault", none), ("Pump", some "Feed pump"), ("Start", none)] ∧
      Json.readText record.decode a.toJson.compact = .ok a := by
  intro p a
  have hextent : p.extent < UInt64.size := by decide +kernel
  exact ⟨hextent, by decide +kernel, by decide +kernel, (readText_compact_ofProject hextent {}).1⟩

end Analysis

end LadderLogic
