import LadderLogic.Tag.Graph
import LadderLogic.Proofs.NameMap

/-! Who reads and writes a tag, by the tag graph of a project: the operands that name it, one for each rung. -/
namespace LadderLogic

/-- The first reference from each rung. Rungs are told apart by their location. -/
def firstPerRung : List Reference → List Reference
  | [] => []
  | r :: rs => r :: (firstPerRung rs).filter fun s => s.location ≠ r.location

theorem firstPerRung_eq_nil_iff {rs : List Reference} : firstPerRung rs = [] ↔ rs = [] := by
  cases rs <;> simp [firstPerRung]

theorem mem_location_firstPerRung {l : Location} {rs : List Reference} :
    l ∈ (firstPerRung rs).map (·.location) ↔ l ∈ rs.map (·.location) := by
  induction rs with
  | nil => simp [firstPerRung]
  | cons r rs ih =>
    simp only [firstPerRung, List.map_cons, List.mem_cons, ← ih]
    by_cases h : l = r.location
    · simp [h]
    · simp only [h, false_or, List.mem_map, List.mem_filter, decide_eq_true_eq]
      constructor
      · rintro ⟨s, ⟨hs, -⟩, rfl⟩
        exact ⟨s, hs, rfl⟩
      · rintro ⟨s, hs, rfl⟩
        exact ⟨s, ⟨hs, h⟩, rfl⟩

theorem nodup_location_firstPerRung (rs : List Reference) :
    ((firstPerRung rs).map (·.location)).Nodup := by
  induction rs with
  | nil => simp [firstPerRung]
  | cons r rs ih =>
    simp only [firstPerRung, List.map_cons, List.nodup_cons]
    refine ⟨by simp, ih.sublist (List.filter_sublist.map _)⟩

theorem firstPerRung_append (rs ss : List Reference) :
    firstPerRung (rs ++ ss) =
      firstPerRung rs ++ (firstPerRung ss).filter fun s => s.location ∉ rs.map (·.location) := by
  induction rs with
  | nil => exact (List.filter_eq_self.2 fun _ _ => by simp).symm
  | cons r rs ih =>
    simp only [List.cons_append, firstPerRung, ih, List.filter_append, List.filter_filter]
    congr 2
    apply List.filter_congr
    intro s _
    simp

/-- The uses of one kind of a tag among sightings. -/
def Sighting.usesIn (xs : List Sighting) (tag : String) (usage : Usage) : List Reference :=
  (xs.filter fun x => x.tag = tag ∧ x.reference.usage = usage).map (·.reference)

namespace Sighting

theorem usesIn_concat (xs : List Sighting) (x : Sighting) (tag : String) (usage : Usage) :
    usesIn (xs ++ [x]) tag usage =
      usesIn xs tag usage ++ if x.tag = tag ∧ x.reference.usage = usage then [x.reference] else [] := by
  unfold usesIn
  rw [List.filter_append, List.map_append]
  by_cases h : x.tag = tag ∧ x.reference.usage = usage <;> simp [h]

theorem firstPerRung_usesIn_concat (xs : List Sighting) (x : Sighting) (tag : String) (usage : Usage) :
    firstPerRung (usesIn (xs ++ [x]) tag usage) = firstPerRung (usesIn xs tag usage) ++
      if x.tag = tag ∧ x.reference.usage = usage ∧
        x.reference.location ∉ (usesIn xs tag usage).map (·.location) then [x.reference] else [] := by
  rw [usesIn_concat, firstPerRung_append]
  congr 1
  by_cases h : x.tag = tag ∧ x.reference.usage = usage
  · by_cases hl : x.reference.location ∈ (usesIn xs tag usage).map (·.location)
    · simp only [h, hl, firstPerRung, and_self, if_true, List.filter_nil, List.filter_cons, not_true,
        and_false, decide_false, Bool.false_eq_true, if_false]
    · simp only [h, hl, firstPerRung, and_self, if_true, List.filter_nil, List.filter_cons, not_false_iff,
        decide_true]
  · have h' : ¬(x.tag = tag ∧ x.reference.usage = usage ∧
        x.reference.location ∉ (usesIn xs tag usage).map (·.location)) := fun hc => h ⟨hc.1, hc.2.1⟩
    rw [if_neg h, if_neg h']
    rfl

theorem mem_usesIn {xs : List Sighting} {tag : String} {usage : Usage} {r : Reference} :
    r ∈ usesIn xs tag usage ↔ ⟨tag, r⟩ ∈ xs ∧ r.usage = usage := by
  simp only [usesIn, List.mem_map, List.mem_filter, decide_eq_true_eq]
  constructor
  · rintro ⟨x, ⟨hx, rfl, hu⟩, rfl⟩
    exact ⟨hx, hu⟩
  · rintro ⟨hx, hu⟩
    exact ⟨_, ⟨hx, rfl, hu⟩, rfl⟩

/-- A tag is met at all if it is read or written. -/
theorem mem_tag_iff {xs : List Sighting} {tag : String} :
    tag ∈ xs.map (·.tag) ↔ ∃ usage, usesIn xs tag usage ≠ [] := by
  constructor
  · intro h
    obtain ⟨x, hx, rfl⟩ := List.mem_map.1 h
    exact ⟨x.reference.usage, List.ne_nil_of_mem (mem_usesIn.2 ⟨hx, rfl⟩)⟩
  · rintro ⟨usage, h⟩
    obtain ⟨r, hr⟩ := List.exists_mem_of_ne_nil _ h
    exact List.mem_map.2 ⟨_, (mem_usesIn.1 hr).1, rfl⟩

end Sighting

/-- A tag with the uses that sightings tell of it. -/
def TagUsage.met (xs : List Sighting) (tag : String) : TagUsage :=
  { TagUsage.ofName tag with
    readers := firstPerRung (Sighting.usesIn xs tag .read)
    writers := firstPerRung (Sighting.usesIn xs tag .write) }

namespace TagUsage

theorem met_of_not_mem {xs : List Sighting} {tag : String} (h : tag ∉ xs.map (·.tag)) :
    met xs tag = ofName tag := by
  have huses : ∀ usage, Sighting.usesIn xs tag usage = [] := fun usage =>
    Decidable.byContradiction fun hne => h (Sighting.mem_tag_iff.2 ⟨usage, hne⟩)
  simp [met, huses, firstPerRung, ofName]

theorem met_concat (xs : List Sighting) (x : Sighting) (tag : String) :
    met (xs ++ [x]) tag =
      if x.tag = tag ∧ x.reference.location ∉ (Sighting.usesIn xs tag x.reference.usage).map (·.location)
      then (met xs tag).add x.reference else met xs tag := by
  unfold met
  rw [Sighting.firstPerRung_usesIn_concat, Sighting.firstPerRung_usesIn_concat]
  cases hu : x.reference.usage with
  | read =>
    by_cases h : x.tag = tag ∧ x.reference.location ∉ (Sighting.usesIn xs tag .read).map (·.location) <;>
      simp only [h, hu, add, reduceCtorEq, true_and, false_and, and_false, and_self, not_false_iff, if_true,
        if_false, List.append_nil]
  | write =>
    by_cases h : x.tag = tag ∧ x.reference.location ∉ (Sighting.usesIn xs tag .write).map (·.location) <;>
      simp only [h, hu, add, reduceCtorEq, true_and, false_and, and_false, and_self, not_false_iff, if_true,
        if_false, List.append_nil]

end TagUsage

namespace Survey

/-- The survey holds what a part of the walk has met: the first use of each kind of a tag in each
rung. -/
structure Reflects (s : Survey) (xs : List Sighting) : Prop where
  seen : ∀ usage tag location,
    (usage, tag, location) ∈ s.seen ↔ location ∈ (Sighting.usesIn xs tag usage).map (·.location)
  tags : ∀ tag, s.tags.get? tag = if tag ∈ xs.map (·.tag) then some (.met xs tag) else none

theorem reflects_empty : empty.Reflects [] := by
  constructor <;> simp [empty, Sighting.usesIn]

theorem mem_seen_record {s : Survey} {x : Sighting} {usage : Usage} {tag : String} {location : Location} :
    (usage, tag, location) ∈ (s.record x).seen ↔ (usage, tag, location) ∈ s.seen ∨
      (x.tag = tag ∧ x.reference.usage = usage) ∧ location = x.reference.location := by
  unfold record
  dsimp only
  split <;> grind

theorem get?_tags_record (s : Survey) (x : Sighting) (tag : String) :
    (s.record x).tags.get? tag =
      if x.tag = tag ∧ (x.reference.usage, tag, x.reference.location) ∉ s.seen
      then some (((s.tags.get? tag).getD (.ofName tag)).add x.reference) else s.tags.get? tag := by
  unfold record
  dsimp only
  by_cases ht : x.tag = tag
  · subst ht
    split <;> simp_all [NameMap.get?_insert]
  · split <;> simp_all [NameMap.get?_insert]

theorem Reflects.getD_tags {s : Survey} {xs : List Sighting} (h : s.Reflects xs) (tag : String) :
    (s.tags.get? tag).getD (.ofName tag) = .met xs tag := by
  rw [h.tags]
  split
  · rfl
  · next hmem => exact (TagUsage.met_of_not_mem hmem).symm

/-- Recording a use keeps the survey true to the walk. -/
theorem Reflects.record {s : Survey} {xs : List Sighting} (h : s.Reflects xs) (x : Sighting) :
    (s.record x).Reflects (xs ++ [x]) := by
  constructor
  · intro usage tag location
    rw [mem_seen_record, h.seen, Sighting.usesIn_concat, List.map_append, List.mem_append]
    by_cases hx : x.tag = tag ∧ x.reference.usage = usage <;> simp [hx]
  · intro tag
    rw [get?_tags_record, h.getD_tags, TagUsage.met_concat]
    simp only [h.seen, List.map_append, List.mem_append, List.map_cons, List.map_nil, List.mem_singleton]
    by_cases hx : x.tag = tag
    · subst hx
      by_cases hl : x.reference.location ∈ (Sighting.usesIn xs x.tag x.reference.usage).map (·.location)
      · -- The rung is known to use the tag so, hence the tag is known.
        have hmem : x.tag ∈ xs.map (·.tag) :=
          Sighting.mem_tag_iff.2 ⟨x.reference.usage, fun hnil => by simp [hnil] at hl⟩
        simp only [hl, h.tags, hmem, not_true, and_false, if_false, true_or, if_true]
      · simp only [hl, not_false_iff, and_self, if_true, or_true]
    · simp only [hx, h.tags, false_and, if_false, Ne.symm hx, or_false]

theorem Reflects.foldl {s : Survey} {xs : List Sighting} (h : s.Reflects xs) (ys : List Sighting) :
    (ys.foldl Survey.record s).Reflects (xs ++ ys) := by
  induction ys generalizing s xs with
  | nil => simpa using h
  | cons y ys ih =>
    have hstep := ih (h.record y)
    rwa [List.append_assoc] at hstep

theorem reflects_ofSightings (xs : List Sighting) : (ofSightings xs).Reflects xs :=
  reflects_empty.foldl xs

end Survey

/-- The operands of an instruction that use a tag in one way, as references. -/
def Instruction.operandsUsing (i : Instruction) (location : Location) (tag : String) (usage : Usage) :
    List Reference :=
  i.operands.zipIdx.filterMap fun (operand, n) =>
    if i.access.usage? n = some usage ∧ Operand.isTag operand ∧ Text.trim operand = tag then
      some ⟨location, i.opcode, usage⟩
    else none

/-- All operands that use a tag in one way, on a walk through the programs, their routines, rungs
and instructions. -/
def Project.operandsUsing (p : Project) (tag : String) (usage : Usage) : List Reference :=
  p.programs.flatMap fun program =>
    program.routines.flatMap fun routine =>
      routine.rungs.flatMap fun rung =>
        rung.allInstructions.flatMap fun i =>
          i.operandsUsing ⟨program.name, routine.name, rung.number⟩ tag usage

theorem Sighting.usesIn_flatMap (xs : List α) (f : α → List Sighting) (tag : String) (usage : Usage) :
    usesIn (xs.flatMap f) tag usage = xs.flatMap fun a => usesIn (f a) tag usage := by
  simp only [usesIn, List.filter_flatMap, List.map_flatMap]

theorem Rung.usesIn_sightings (location : Location) (r : Rung) (tag : String) (usage : Usage) :
    Sighting.usesIn (r.sightings location) tag usage =
      r.allInstructions.flatMap fun i => i.operandsUsing location tag usage := by
  unfold Rung.sightings
  rw [Sighting.usesIn_flatMap]
  refine congrArg r.allInstructions.flatMap (funext fun i => ?_)
  unfold Instruction.operandsUsing
  split
  · -- An opcode that is not known uses none of its operands.
    next hunknown => simp [Sighting.usesIn, hunknown, Access.usage?]
  · unfold Sighting.usesIn Instruction.usedOperands
    rw [List.filterMap_filterMap, List.filter_filterMap, List.map_filterMap]
    refine congrArg (List.filterMap · i.operands.zipIdx) (funext fun (operand, n) => ?_)
    dsimp only
    cases i.access.usage? n with
    | none => simp
    | some u =>
      by_cases htag : Operand.isTag operand = true
      · by_cases h : u = usage ∧ Text.trim operand = tag
        · simp [htag, h, Option.filter]
        · have h' : ¬(Text.trim operand = tag ∧ u = usage) := fun hc => h hc.symm
          simp [htag, h, h', Option.filter]
      · simp [htag]

theorem Project.operandsUsing_eq_flatMap_rungs (p : Project) (tag : String) (usage : Usage) :
    p.operandsUsing tag usage = p.rungs.flatMap fun (location, rung) =>
      rung.allInstructions.flatMap fun i => i.operandsUsing location tag usage := by
  unfold Project.operandsUsing Project.rungs
  simp only [List.flatMap_assoc, List.flatMap_map]

theorem Project.usesIn_sightings (p : Project) (tag : String) (usage : Usage) :
    Sighting.usesIn p.sightings tag usage = p.operandsUsing tag usage := by
  rw [Project.operandsUsing_eq_flatMap_rungs]
  unfold Project.sightings
  simp only [Sighting.usesIn_flatMap, Rung.usesIn_sightings]

namespace TagGraph

theorem get?_ofProject (p : Project) (tag : String) :
    (ofProject p).get? tag =
      if tag ∈ p.sightings.map (·.tag) then some ((TagUsage.met p.sightings tag).describe p.declaredTags)
      else none := by
  unfold get? ofProject
  simp only [NameMap.get?_map, (Survey.reflects_ofSightings p.sightings).tags]
  split <;> rfl

theorem isSome_get?_ofProject {p : Project} {tag : String} :
    ((ofProject p).get? tag).isSome ↔ ∃ usage, p.operandsUsing tag usage ≠ [] := by
  simp only [← Project.usesIn_sightings, ← Sighting.mem_tag_iff]
  rw [get?_ofProject]
  split <;> simp_all

theorem operandsUsing_eq_nil_of_get?_eq_none {p : Project} {tag : String} (h : (ofProject p).get? tag = none)
    (usage : Usage) : p.operandsUsing tag usage = [] := by
  by_contra hne
  have hsome := isSome_get?_ofProject.2 ⟨usage, hne⟩
  rw [h] at hsome
  cases hsome

theorem name_of_get?_ofProject {p : Project} {tag : String} {t : TagUsage}
    (h : (ofProject p).get? tag = some t) : t.name = tag := by
  rw [get?_ofProject] at h
  split at h
  · exact Option.some.inj h ▸ rfl
  · cases h

theorem referencesFor_of_get?_ofProject {p : Project} {tag : String} {t : TagUsage}
    (h : (ofProject p).get? tag = some t) (usage : Usage) :
    t.referencesFor usage = firstPerRung (p.operandsUsing tag usage) := by
  rw [get?_ofProject] at h
  rw [← Project.usesIn_sightings]
  split at h
  · have ht := Option.some.inj h
    subst ht
    cases usage <;> rfl
  · cases h

/-- The graph of a project has the tags that operands use. The readers of a tag are the operands
that read it, in the order of the project and the first one of each rung; so are the writers. Hence
no rung stands twice in a list, even where names or rung numbers repeat, and no rung that uses the
tag is missing. -/
theorem references_ofProject (p : Project) (tag : String) :
    (∀ t, (ofProject p).get? tag = some t → t.name = tag ∧
        t.readers = firstPerRung (p.operandsUsing tag .read) ∧
        t.writers = firstPerRung (p.operandsUsing tag .write)) ∧
      (((ofProject p).get? tag).isSome ↔
        firstPerRung (p.operandsUsing tag .read) ≠ [] ∨ firstPerRung (p.operandsUsing tag .write) ≠ []) ∧
      (∀ t, (ofProject p).get? tag = some t →
        (t.readers.map (·.location)).Nodup ∧ (t.writers.map (·.location)).Nodup) ∧
      ∀ usage, ∀ r ∈ p.operandsUsing tag usage, ∃ t, (ofProject p).get? tag = some t ∧
        ∃ r' ∈ t.referencesFor usage, r'.location = r.location := by
  have hlists : ∀ t, (ofProject p).get? tag = some t →
      t.readers = firstPerRung (p.operandsUsing tag .read) ∧
        t.writers = firstPerRung (p.operandsUsing tag .write) := fun t h =>
    ⟨referencesFor_of_get?_ofProject h .read, referencesFor_of_get?_ofProject h .write⟩
  refine ⟨fun t h => ⟨name_of_get?_ofProject h, hlists t h⟩, ?_, ?_, ?_⟩
  · simp only [ne_eq, firstPerRung_eq_nil_iff]
    rw [isSome_get?_ofProject]
    constructor
    · rintro ⟨_ | _, h⟩
      · exact Or.inl h
      · exact Or.inr h
    · rintro (h | h) <;> exact ⟨_, h⟩
  · intro t h
    obtain ⟨hr, hw⟩ := hlists t h
    rw [hr, hw]
    exact ⟨nodup_location_firstPerRung _, nodup_location_firstPerRung _⟩
  · intro usage r hr
    obtain ⟨t, ht⟩ := Option.isSome_iff_exists.1 (isSome_get?_ofProject.2 ⟨usage, List.ne_nil_of_mem hr⟩)
    have hmem : r.location ∈ (t.referencesFor usage).map (·.location) := by
      rw [referencesFor_of_get?_ofProject ht, mem_location_firstPerRung]
      exact List.mem_map_of_mem hr
    exact ⟨t, ht, List.mem_map.1 hmem⟩

theorem references_ofProject_sameNames :
    let routine (text : String) : Routine := { name := "R1", rungs := [{ number := 3, text }] }
    let p : Project :=
      { programs := [{ name := "Main", routines := [routine "XIC(A) OTE(A)"] },
          { name := "Main", routines := [routine "XIO(A) OTE(B)"] }] }
    (p.operandsUsing "A" .read).map (·.opcode) = ["XIC", "XIO"] ∧
      ∃ t, (ofProject p).get? "A" = some t ∧ t.readers.map (·.opcode) = ["XIC"] := by
  intro routine p
  obtain ⟨hlists, hsome, -⟩ := references_ofProject p "A"
  obtain ⟨t, ht⟩ := Option.isSome_iff_exists.1 (hsome.2 (Or.inl (by decide +kernel)))
  refine ⟨by decide +kernel, t, ht, ?_⟩
  rw [(hlists t ht).2.1]
  decide +kernel

end TagGraph

end LadderLogic
