import LadderLogic.Proofs.Context.Names
import LadderLogic.Proofs.Tag.Related

/-! The key points about other rungs: who else reads the primary output, and who else writes the first input
that others write. -/
namespace LadderLogic

theorem TagGraph.pairwise_rungsUsing (g : TagGraph) (tag program routine : String) (usage : Usage) :
    (g.rungsUsing tag program routine usage).Pairwise (· < ·) := by
  unfold rungsUsing
  split
  · exact .nil
  · exact pairwise_ascending _

namespace View

/-- In ascending order, the numbers other than its own at which the rung's routine has a rung that uses the tag
so. -/
structure IsOthersUsing (v : View) (p : Project) (tag : String) (usage : Usage) (ns : List UInt32) : Prop where
  ascending : ns.Pairwise (· < ·)
  mem_iff : ∀ n, n ∈ ns ↔ n ≠ v.location.number ∧
    ∃ other, (⟨v.location.program, v.location.routine, n⟩, other) ∈ p.rungs ∧
      tag ∈ (ofRung v.location.program v.location.routine other).tagsFor usage

/-- The first input that other rungs of the routine write. -/
def IsFirstSet (v : View) (p : Project) (tag : String) : Prop :=
  ∃ earlier later, v.inputs = earlier ++ tag :: later ∧ ∀ t ∈ earlier, v.IsOthersUsing p t .write []

section Others
variable {v : View} {p : Project} {tag : String} {usage : Usage} {ns : List UInt32}

theorem isOthersUsing_othersUsing (v : View) (p : Project) (tag : String) (usage : Usage) :
    v.IsOthersUsing p tag usage (v.othersUsing (.ofProject p) tag usage) where
  ascending := (TagGraph.pairwise_rungsUsing _ _ _ _ _).filter _
  mem_iff n := by rw [mem_othersUsing, TagGraph.mem_rungsUsing]

theorem IsOthersUsing.eq (h : v.IsOthersUsing p tag usage ns) : ns = v.othersUsing (.ofProject p) tag usage := by
  have hothers := isOthersUsing_othersUsing v p tag usage
  apply h.ascending.eq_of_mem_iff hothers.ascending
  intro n
  rw [h.mem_iff, hothers.mem_iff]

theorem IsOthersUsing.subset_relatedRungs (h : v.IsOthersUsing p tag usage ns) (htag : tag ∈ v.tags) :
    ns ⊆ v.relatedRungs (.ofProject p) := by
  intro n hn
  rw [h.eq] at hn
  rw [relatedRungs, mem_ascending, List.mem_flatMap]
  refine ⟨tag, htag, List.mem_append.2 ?_⟩
  cases usage with
  | read => exact .inl hn
  | write => exact .inr hn

end Others

end View

namespace KeyPoint

/-- What a key point tells of a tag and of the rungs that use it: five numbers at most, and how many more there
are. -/
def note (tag words : String) (ns : List UInt32) : String :=
  tag ++ words ++ (Text.joined ", " ((ns.take 5).map fun n => toString n.toNat) ++
    if ns.length ≤ 5 then "" else " and " ++ toString (ns.length - 5) ++ " more")

theorem note_eq (tag words : String) (ns : List UInt32) : note tag words ns = tag ++ words ++ numbers ns := by
  unfold note numbers Text.listing
  rw [List.length_map]
  split
  · next hfew => rw [List.take_of_length_le hfew, String.append_empty]
  · simp only [List.map_take, String.append_assoc]

/-- The key point about a tag, if other rungs use it so. -/
def note? (v : View) (graph : TagGraph) (usage : Usage) (words tag : String) : Option String :=
  if (v.othersUsing graph tag usage).isEmpty then none
  else some (tag ++ words ++ numbers (v.othersUsing graph tag usage))

theorem readers_eq (v : View) (graph : TagGraph) (purpose : Purpose) :
    readers v graph purpose =
      (purpose.primaryOutput.bind (note? v graph .read " is used by rung(s) ")).toList := by
  unfold readers note?
  cases purpose.primaryOutput with
  | none => rfl
  | some output =>
    dsimp only [Option.bind_some]
    cases hothers : (v.othersUsing graph output .read).isEmpty <;> simp [when]

theorem writers_eq (v : View) (graph : TagGraph) :
    writers v graph = (v.inputs.findSome? (note? v graph .write " is set by rung(s) ")).toList :=
  rfl

theorem note?_empty (v : View) (usage : Usage) (words tag : String) : note? v .empty usage words tag = none :=
  rfl

theorem readers_empty (v : View) (purpose : Purpose) : readers v .empty purpose = [] := by
  rw [readers_eq]
  cases purpose.primaryOutput with
  | none => rfl
  | some output => rw [Option.bind_some, note?_empty, Option.toList_none]

theorem writers_empty (v : View) : writers v .empty = [] := by
  rw [writers_eq, List.findSome?_eq_none_iff.2 fun tag _ => note?_empty v _ _ tag, Option.toList_none]

section Notes
variable {v : View} {p : Project} {usage : Usage} {words tag point : String}

theorem note?_eq_some_iff : note? v (.ofProject p) usage words tag = some point ↔
    ∃ ns, v.IsOthersUsing p tag usage ns ∧ ns ≠ [] ∧ point = note tag words ns := by
  have hothers := View.isOthersUsing_othersUsing v p tag usage
  simp only [note?, Option.ite_none_left_eq_some, List.isEmpty_iff, Option.some.injEq, ← note_eq]
  constructor
  · rintro ⟨hne, rfl⟩
    exact ⟨_, hothers, hne, rfl⟩
  · rintro ⟨ns, hns, hne, rfl⟩
    rw [← hns.eq]
    exact ⟨hne, rfl⟩

theorem note?_eq_none_iff : note? v (.ofProject p) usage words tag = none ↔ v.IsOthersUsing p tag usage [] := by
  simp only [note?, ite_eq_left_iff, List.isEmpty_iff, reduceCtorEq, imp_false, not_not]
  constructor
  · intro hnone
    rw [← hnone]
    exact View.isOthersUsing_othersUsing v p tag usage
  · intro hnone
    exact hnone.eq.symm

/-- The key points about one choice of tags and one way to use them: there is one exactly if other rungs use a tag
of that choice so, and these rungs are related. -/
structure AreNotes (v : View) (p : Project) (usage : Usage) (words : String) (Chosen : String → Prop)
    (points : List String) : Prop where
  length_le : points.length ≤ 1
  mem_iff : ∀ point, point ∈ points ↔
    ∃ tag ns, Chosen tag ∧ v.IsOthersUsing p tag usage ns ∧ ns ≠ [] ∧ point = note tag words ns
  related : ∀ tag ns, Chosen tag → v.IsOthersUsing p tag usage ns → ns ⊆ v.relatedRungs (.ofProject p)

theorem areNotes_toList {Chosen : String → Prop} {o : Option String} (hchosen : ∀ tag, Chosen tag → tag ∈ v.tags)
    (ho : ∀ point, o = some point ↔ ∃ tag, Chosen tag ∧ note? v (.ofProject p) usage words tag = some point) :
    AreNotes v p usage words Chosen o.toList where
  length_le := by cases o <;> simp
  mem_iff point := by simp only [Option.mem_toList, ho, note?_eq_some_iff, exists_and_left]
  related tag ns htag hns := hns.subset_relatedRungs (hchosen tag htag)

end Notes

theorem areNotes_readers (v : View) (p : Project) {purpose : Purpose}
    (hprimary : ∀ tag, purpose.primaryOutput = some tag → tag ∈ v.outputs) :
    AreNotes v p .read " is used by rung(s) " (fun tag => purpose.primaryOutput = some tag)
      (readers v (.ofProject p) purpose) := by
  rw [readers_eq]
  apply areNotes_toList
  · intro tag htag
    exact View.mem_tags.2 ⟨.write, hprimary tag htag⟩
  · intro point
    exact Option.bind_eq_some_iff

theorem areNotes_writers (v : View) (p : Project) :
    AreNotes v p .write " is set by rung(s) " (v.IsFirstSet p) (writers v (.ofProject p)) := by
  rw [writers_eq]
  apply areNotes_toList
  · rintro tag ⟨earlier, later, hinputs, -⟩
    refine View.mem_tags.2 ⟨.read, ?_⟩
    rw [View.tagsFor, hinputs]
    exact List.mem_append_right _ List.mem_cons_self
  · intro point
    rw [List.findSome?_eq_some_iff]
    constructor
    · rintro ⟨earlier, tag, later, hinputs, hpoint, hearlier⟩
      exact ⟨tag, ⟨earlier, later, hinputs, fun t ht => note?_eq_none_iff.1 (hearlier t ht)⟩, hpoint⟩
    · rintro ⟨tag, ⟨earlier, later, hinputs, hearlier⟩, hpoint⟩
      exact ⟨earlier, tag, later, hinputs, hpoint, fun t ht => note?_eq_none_iff.2 (hearlier t ht)⟩

/-- The graph has a part in two of the key points only. -/
theorem exists_all_eq_append (v : View) (patterns : List Pattern) (purpose : Purpose) (optionBits : Bool) :
    ∃ before after, ∀ graph, all v patterns graph purpose optionBits =
      before ++ readers v graph purpose ++ writers v graph ++ after :=
  ⟨_, _, fun _ => rfl⟩

end KeyPoint

namespace Context

/-- The key points before the cut are those that there would be without a graph of tags, with two lists among them.
The first list has a key point exactly if other rungs of the routine read the primary output. The second has one
exactly if other rungs write an input, and it is about the first such input. Each names these rungs in ascending
order, and all of them are related rungs. -/
theorem crossReferences_ofView (p : Project) (program routine : String) (rung : Rung) (settings : Settings) :
    let v := View.ofRung program routine rung
    let c := ofView v (.ofProject p) settings
    let points := fun graph => KeyPoint.all v c.patterns graph c.purposeDetail c.hasOptionBits
    c.keyPoints = (points (.ofProject p)).take settings.maxKeyPoints.toNat ∧
      c.relatedRungs = v.relatedRungs (.ofProject p) ∧
      ∃ before used set after,
        points .empty = before ++ after ∧ points (.ofProject p) = before ++ used ++ set ++ after ∧
          KeyPoint.AreNotes v p .read " is used by rung(s) "
            (fun tag => c.purposeDetail.primaryOutput = some tag) used ∧
          KeyPoint.AreNotes v p .write " is set by rung(s) " (v.IsFirstSet p) set := by
  intro v c points
  obtain ⟨before, after, hpoints⟩ :=
    KeyPoint.exists_all_eq_append v c.patterns c.purposeDetail c.hasOptionBits
  refine ⟨rfl, rfl, before, _, _, after, ?_, hpoints _, ?_, ?_⟩
  · have hempty : points .empty = _ := hpoints .empty
    rw [hempty, KeyPoint.readers_empty, KeyPoint.writers_empty, List.append_nil, List.append_nil]
  · exact KeyPoint.areNotes_readers v p fun _ => Purpose.mem_of_primaryOf
  · exact KeyPoint.areNotes_writers v p

-- A rung of another routine does not count, nor does the rung itself.
example :
    let rung (number : UInt32) (text : String) : Rung := { number, text }
    let p : Project :=
      { programs := [{
          name := "Main"
          routines := [
            { name := "R1", rungs := [rung 3 "XIC(A) XIC(X) OTE(X)", rung 9 "XIC(X) OTE(Y)", rung 7 "XIC(X) OTE(A)"] },
            { name := "R2", rungs := [rung 5 "XIC(X) OTE(Z)"] }] }] }
    let v := View.ofRung "Main" "R1" (rung 3 "XIC(A) XIC(X) OTE(X)")
    KeyPoint.readers v (.ofProject p) (Purpose.ofView v [] .generalLogic []) = ["X is used by rung(s) 7, 9"] ∧
      KeyPoint.writers v (.ofProject p) = ["A is set by rung(s) 7"] := by
  decide +kernel

end Context

end LadderLogic
