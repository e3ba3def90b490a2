import LadderLogic.Proofs.Context.Isolation
import LadderLogic.Proofs.Rung.Extent
import LadderLogic.Proofs.Sorted
import Mathlib.Data.List.Induction

/-! The groups of branches. They divide the branches of a rung among the topics, in the order in which the
topics first appear. -/
namespace LadderLogic

/-- The elements of a list once each, by where they first stand in it. -/
structure OnceEach [DecidableEq α] (xs firsts : List α) : Prop where
  nodup : firsts.Nodup
  mem_iff : ∀ a, a ∈ firsts ↔ a ∈ xs
  ordered : firsts.Pairwise fun a b => xs.idxOf a < xs.idxOf b

section EraseDups
variable [DecidableEq α]

theorem eraseDups_concat (xs : List α) (a : α) :
    (xs ++ [a]).eraseDups = if a ∈ xs then xs.eraseDups else xs.eraseDups ++ [a] := by
  rw [List.eraseDups_append]
  split
  · next hmem => simp [List.removeAll, hmem]
  · next hmem => simp [List.removeAll, hmem, List.eraseDups_cons]

theorem onceEach_eraseDups (xs : List α) : OnceEach xs xs.eraseDups := by
  refine ⟨nodup_eraseDups xs, fun a => List.mem_eraseDups, ?_⟩
  induction xs using List.reverseRecOn with
  | nil => exact .nil
  | append_singleton xs a ih =>
    have hkept : xs.eraseDups.Pairwise fun b c => (xs ++ [a]).idxOf b < (xs ++ [a]).idxOf c := by
      refine ih.imp_of_mem fun {b c} hb hc hlt => ?_
      rwa [List.idxOf_append_of_mem (List.mem_eraseDups.1 hb), List.idxOf_append_of_mem (List.mem_eraseDups.1 hc)]
    rw [eraseDups_concat]
    split
    · exact hkept
    · next hnew =>
      refine List.pairwise_append.2 ⟨hkept, List.pairwise_singleton _ _, fun b hb c hc => ?_⟩
      have hold := List.mem_eraseDups.1 hb
      rw [List.mem_singleton.1 hc, List.idxOf_append_of_mem hold, List.idxOf_append_of_notMem hnew]
      exact Nat.lt_add_right _ (List.idxOf_lt_length_of_mem hold)

theorem idxOf_le_of_getElem? {xs : List α} {a : α} {i : Nat} (h : xs[i]? = some a) : xs.idxOf a ≤ i := by
  have htake : a ∈ xs.take (i + 1) := List.mem_of_getElem? (by rw [List.getElem?_take_of_lt (Nat.lt_succ_self i), h])
  exact Nat.le_of_lt_succ ((List.mem_take_iff_idxOf_lt (List.mem_of_getElem? h)).1 htake)

theorem eraseDups_append_eraseDups (xs ys : List α) :
    (xs ++ ys.eraseDups).eraseDups = (xs ++ ys).eraseDups := by
  induction ys using List.reverseRecOn with
  | nil => rfl
  | append_singleton ys a ih =>
    rw [← List.append_assoc, eraseDups_concat, eraseDups_concat]
    split
    · next hmem => rw [ih, if_pos (List.mem_append_right _ hmem)]
    · next hmem =>
      rw [← List.append_assoc, eraseDups_concat, ih]
      simp only [List.mem_append, List.mem_eraseDups]

theorem eraseDups_eraseDups_append (xs ys : List α) :
    (xs.eraseDups ++ ys).eraseDups = (xs ++ ys).eraseDups := by
  induction ys using List.reverseRecOn with
  | nil =>
    rw [List.append_nil, List.append_nil]
    exact eraseDups_append_eraseDups [] xs
  | append_singleton ys a ih =>
    rw [← List.append_assoc, ← List.append_assoc, eraseDups_concat, eraseDups_concat, ih]
    simp only [List.mem_append, List.mem_eraseDups]

end EraseDups

/-- The tags among the operands that have a use, in their order. -/
def Instruction.trackedTags (i : Instruction) : List String :=
  (i.usedOperands.map fun (operand, _) => Text.trim operand).filter Operand.isTag

namespace View

theorem tagsUsed_eq_eraseDups (is : List Instruction) :
    tagsUsed is (fun _ => true) = (is.flatMap Instruction.trackedTags).eraseDups := by
  have htags : is.flatMap Instruction.trackedTags =
      ((is.flatMap Instruction.usedOperands).map fun (operand, _) => Text.trim operand).filter Operand.isTag := by
    rw [List.map_flatMap, List.filter_flatMap]
    rfl
  rw [htags, ← List.filterMap_eq_filter, List.filterMap_map]
  simp only [tagsUsed, Bool.and_true, Function.comp_def, Option.guard]

theorem tagsUsed_append (is js : List Instruction) :
    tagsUsed (is ++ js) (fun _ => true) =
      (tagsUsed is (fun _ => true) ++ tagsUsed js fun _ => true).eraseDups := by
  simp only [tagsUsed_eq_eraseDups]
  rw [List.flatMap_append, eraseDups_append_eraseDups, eraseDups_eraseDups_append]

end View

theorem Branch.topic_of_instructions_eq {b c : Branch} (h : b.instructions = c.instructions) (graph : TagGraph) :
    b.topic graph = c.topic graph := by
  unfold topic tags
  rw [h]

namespace BranchGroup

def extend (g : BranchGroup) (index : Nat) (tags : List String) : BranchGroup :=
  { g with branches := g.branches ++ [index], tags := (g.tags ++ tags).eraseDups }

section Add
variable {topic : Topic} (index : Nat) (tags : List String)

theorem add_of_not_mem {groups : List BranchGroup} (h : topic ∉ groups.map (·.topic)) :
    add topic index tags groups = groups ++ [⟨topic, [index], tags⟩] := by
  induction groups with
  | nil => rfl
  | cons g rest ih =>
    rw [List.map_cons, List.mem_cons, not_or] at h
    rw [add, if_neg (Ne.symm h.1), ih h.2, List.cons_append]

theorem add_of_mem {groups : List BranchGroup} (hnodup : (groups.map (·.topic)).Nodup)
    (h : topic ∈ groups.map (·.topic)) :
    add topic index tags groups = groups.map fun g => if g.topic = topic then g.extend index tags else g := by
  induction groups with
  | nil => cases h
  | cons g rest ih =>
    rw [List.map_cons, List.nodup_cons] at hnodup
    rw [add, List.map_cons]
    split
    · next htopic =>
      -- No other group has the topic.
      have hrest : ∀ k ∈ rest, k.topic ≠ topic := fun k hk heq =>
        hnodup.1 (htopic ▸ heq ▸ List.mem_map_of_mem hk)
      rw [List.map_congr_left fun k hk => if_neg (hrest k hk), List.map_id']
      rfl
    · next htopic =>
      rw [List.map_cons, List.mem_cons] at h
      rw [ih hnodup.2 (h.resolve_left (Ne.symm htopic))]

end Add

/-- The branches of a topic and the tags of their instructions. -/
def gather (graph : TagGraph) (bs : List Branch) (topic : Topic) : BranchGroup :=
  let own := bs.filter (·.topic graph = topic)
  ⟨topic, own.map (·.index), View.tagsUsed (own.flatMap (·.instructions)) fun _ => true⟩

section Gather
variable (graph : TagGraph) (bs : List Branch)

theorem gather_concat (b : Branch) (topic : Topic) :
    gather graph (bs ++ [b]) topic =
      if topic = b.topic graph then (gather graph bs topic).extend b.index b.tags else gather graph bs topic := by
  unfold gather
  split
  · next htopic =>
    have hown : (bs ++ [b]).filter (·.topic graph = topic) = bs.filter (·.topic graph = topic) ++ [b] := by
      rw [List.filter_append, List.filter_cons_of_pos (by simpa using htopic.symm), List.filter_nil]
    simp only [hown, List.map_append, List.flatMap_append, View.tagsUsed_append, List.flatMap_singleton]
    rfl
  · next htopic =>
    have hown : (bs ++ [b]).filter (·.topic graph = topic) = bs.filter (·.topic graph = topic) := by
      rw [List.filter_append, List.filter_cons_of_neg (by simpa using Ne.symm htopic), List.filter_nil,
        List.append_nil]
    rw [hown]

/-- A topic that no branch has so far. -/
theorem gather_of_not_mem {topic : Topic} (h : topic ∉ bs.map (·.topic graph)) :
    gather graph bs topic = ⟨topic, [], []⟩ := by
  have hown : bs.filter (·.topic graph = topic) = [] := by
    rw [List.filter_eq_nil_iff]
    intro b hb heq
    exact h (of_decide_eq_true heq ▸ List.mem_map_of_mem hb)
  unfold gather
  rw [hown]
  rfl

theorem foldl_add :
    bs.foldl (fun groups b => add (b.topic graph) b.index b.tags groups) [] =
      (bs.map (·.topic graph)).eraseDups.map (gather graph bs) := by
  induction bs using List.reverseRecOn with
  | nil => rfl
  | append_singleton bs b ih =>
    have htopics : ((bs.map (·.topic graph)).eraseDups.map (gather graph bs)).map (·.topic) =
        (bs.map (·.topic graph)).eraseDups := by
      rw [List.map_map]
      exact List.map_id _
    rw [List.foldl_append, List.foldl_cons, List.foldl_nil, ih, List.map_append, List.map_singleton, eraseDups_concat]
    split
    · next hold =>
      have hnodup := nodup_eraseDups (bs.map (·.topic graph))
      have hmem := List.mem_eraseDups.2 hold
      rw [← htopics] at hnodup hmem
      rw [add_of_mem _ _ hnodup hmem, List.map_map]
      refine List.map_congr_left fun topic _ => ?_
      rw [gather_concat]
      rfl
    · next hnew =>
      rw [add_of_not_mem _ _ (fun h => hnew (List.mem_eraseDups.1 (htopics ▸ h))), List.map_append, List.map_singleton]
      congr 1
      · refine List.map_congr_left fun topic htopic => ?_
        rw [gather_concat, if_neg]
        rintro rfl
        exact hnew (List.mem_eraseDups.1 htopic)
      · rw [gather_concat, if_pos rfl, gather_of_not_mem graph bs hnew]
        have htags : b.tags.eraseDups = b.tags := by
          unfold Branch.tags
          rw [View.tagsUsed_eq_eraseDups]
          exact eraseDups_append_eraseDups [] _
        simp only [extend, List.nil_append, htags]

end Gather

/-- The groups divide the branches, each of which is told by its place, among them. -/
structure Divide (groups : List BranchGroup) (bs : List Branch) : Prop where
  nodup_names : (groups.map (·.topic.name)).Nodup
  nonempty : ∀ g ∈ groups, g.branches ≠ []
  ascending : ∀ g ∈ groups, g.branches.Pairwise (· < ·)
  lt_length : ∀ g ∈ groups, ∀ i ∈ g.branches, i < bs.length
  existsUnique : ∀ i < bs.length, ∃! g, g ∈ groups ∧ i ∈ g.branches
  ordered : groups.Pairwise fun g h => ∃ i ∈ g.branches, ∀ j ∈ h.branches, i < j
  tags : ∀ g ∈ groups, OnceEach
    (((g.branches.filterMap (bs[·]?)).flatMap (·.instructions)).flatMap Instruction.trackedTags) g.tags

section Numbered
variable {graph : TagGraph} {bs : List Branch} (hbs : bs.map (·.index) = List.range bs.length)
include hbs

theorem index_of_getElem? {i : Nat} {b : Branch} (h : bs[i]? = some b) : b.index = i := by
  have hi : i < bs.length := (List.getElem?_eq_some_iff.1 h).1
  have hindex : (bs.map (·.index))[i]? = some i := by
    rw [hbs, List.getElem?_range hi]
  rw [List.getElem?_map, h] at hindex
  exact Option.some.inj hindex

theorem getElem?_index {b : Branch} (h : b ∈ bs) : bs[b.index]? = some b := by
  obtain ⟨i, hi⟩ := List.mem_iff_getElem?.1 h
  rw [index_of_getElem? hbs hi, hi]

theorem mem_branches_gather {i : Nat} {topic : Topic} :
    i ∈ (gather graph bs topic).branches ↔ (bs.map (·.topic graph))[i]? = some topic := by
  simp only [gather, List.mem_map, List.mem_filter, List.getElem?_map, Option.map_eq_some_iff, decide_eq_true_eq]
  constructor
  · rintro ⟨b, ⟨hb, htopic⟩, rfl⟩
    exact ⟨b, getElem?_index hbs hb, htopic⟩
  · rintro ⟨b, hb, htopic⟩
    exact ⟨b, ⟨List.mem_of_getElem? hb, htopic⟩, index_of_getElem? hbs hb⟩

theorem filterMap_branches_gather (topic : Topic) :
    (gather graph bs topic).branches.filterMap (bs[·]?) = bs.filter (·.topic graph = topic) := by
  simp only [gather, List.filterMap_map]
  rw [List.filterMap_congr (g := some), List.filterMap_some]
  intro b hb
  exact getElem?_index hbs (List.mem_of_mem_filter hb)

theorem divide_gather :
    Divide ((bs.map (·.topic graph)).eraseDups.map (gather graph bs)) bs := by
  have honce := onceEach_eraseDups (bs.map (·.topic graph))
  constructor
  case nodup_names =>
    have hinj : Function.Injective Topic.name := by
      intro s t
      cases s <;> cases t <;> decide
    rw [List.map_map]
    exact honce.nodup.map hinj
  case nonempty =>
    refine List.forall_mem_map.2 fun topic htopic hnil => ?_
    obtain ⟨i, hi⟩ := List.mem_iff_getElem?.1 ((honce.mem_iff topic).1 htopic)
    exact List.not_mem_nil (hnil ▸ (mem_branches_gather hbs).2 hi)
  case ascending =>
    refine List.forall_mem_map.2 fun topic _ => ?_
    have hrange := hbs ▸ List.pairwise_lt_range
    exact hrange.sublist (List.filter_sublist.map _)
  case lt_length =>
    refine List.forall_mem_map.2 fun topic _ i hi => ?_
    obtain ⟨hlt, -⟩ := List.getElem?_eq_some_iff.1 ((mem_branches_gather hbs).1 hi)
    rwa [List.length_map] at hlt
  case existsUnique =>
    intro i hi
    have htopic : (bs.map (·.topic graph))[i]? = some (bs[i].topic graph) := by
      rw [List.getElem?_map, List.getElem?_eq_getElem hi, Option.map_some]
    refine ⟨gather graph bs (bs[i].topic graph), ⟨?_, (mem_branches_gather hbs).2 htopic⟩, ?_⟩
    · exact List.mem_map_of_mem ((honce.mem_iff _).2 (List.mem_of_getElem? htopic))
    · rintro g ⟨hg, hmem⟩
      obtain ⟨topic, -, rfl⟩ := List.mem_map.1 hg
      have hsame := htopic.symm.trans ((mem_branches_gather hbs).1 hmem)
      rw [Option.some.inj hsame]
  case ordered =>
    refine List.pairwise_map.2 (honce.ordered.imp_of_mem fun {s t} hs _ hlt => ?_)
    -- The smallest branch of a group is where its topic first appears.
    have hfirst := List.getElem?_idxOf ((honce.mem_iff s).1 hs)
    refine ⟨_, (mem_branches_gather hbs).2 hfirst, fun j hj => ?_⟩
    exact hlt.trans_le (idxOf_le_of_getElem? ((mem_branches_gather hbs).1 hj))
  case tags =>
    refine List.forall_mem_map.2 fun topic _ => ?_
    rw [filterMap_branches_gather hbs]
    simp only [gather, View.tagsUsed_eq_eraseDups]
    exact onceEach_eraseDups _

end Numbered

section View
variable {v : View} {graph : TagGraph}

theorem ofView_of_lt (h : v.circuit.branches.length < 2) : ofView v graph = [] :=
  if_pos h

theorem ofView_of_le (h : 2 ≤ v.circuit.branches.length) :
    ofView v graph =
      (v.circuit.branches.map (·.topic graph)).eraseDups.map (gather graph v.circuit.branches) := by
  rw [ofView, if_neg (Nat.not_lt.2 h), foldl_add]

/-- A group has the topic of each of its branches. -/
theorem topic_eq_of_mem_branches
    (hv : v.circuit.branches.map (·.index) = List.range v.circuit.branches.length) {g : BranchGroup}
    (hg : g ∈ ofView v graph) {i : Nat} (hi : i ∈ g.branches) {b : Branch}
    (hb : v.circuit.branches[i]? = some b) : g.topic = b.topic graph := by
  rcases Nat.lt_or_ge v.circuit.branches.length 2 with hfew | hmany
  · rw [ofView_of_lt hfew] at hg
    cases hg
  · rw [ofView_of_le hmany] at hg
    obtain ⟨topic, -, rfl⟩ := List.mem_map.1 hg
    have htopic := (mem_branches_gather hv).1 hi
    rw [List.getElem?_map, hb, Option.map_some] at htopic
    exact (Option.some.inj htopic).symm

end View

/-- The groups of a rung divide its branches among them. Branches with the same instructions, of whatever rungs
and beside whatever others, are in groups of one topic if their tags have the same roles. -/
theorem divide_ofView (program routine : String) (rung : Rung) (graph : TagGraph) :
    let v := View.ofRung program routine rung
    (v.circuit.branches.length < 2 → ofView v graph = []) ∧
      (2 ≤ v.circuit.branches.length → Divide (ofView v graph) v.circuit.branches) ∧
      ∀ (program' routine' : String) (rung' : Rung) (graph' : TagGraph),
        let w := View.ofRung program' routine' rung'
        ∀ g ∈ ofView v graph, ∀ h ∈ ofView w graph', ∀ i ∈ g.branches, ∀ j ∈ h.branches,
          ∀ b c, v.circuit.branches[i]? = some b → w.circuit.branches[j]? = some c →
            b.instructions = c.instructions → TagGraph.AgreeOn b.tags graph graph' → g.topic = h.topic := by
  intro v
  have hv : v.circuit.branches.map (·.index) = List.range v.circuit.branches.length :=
    Circuit.map_index_branches _
  refine ⟨ofView_of_lt, fun hmany => ?_, ?_⟩
  · rw [ofView_of_le hmany]
    exact divide_gather hv
  · intro program' routine' rung' graph' w g hg h hh i hi j hj b c hb hc hinstructions hagree
    calc g.topic = b.topic graph := topic_eq_of_mem_branches hv hg hi hb
      _ = b.topic graph' := hagree.topic
      _ = c.topic graph' := Branch.topic_of_instructions_eq hinstructions graph'
      _ = h.topic := (topic_eq_of_mem_branches (Circuit.map_index_branches _) hh hj hc).symm

/-- Two topics that take turns, and a branch that another project has in another place. -/
theorem divide_ofView_alternating :
    let linear : Rung := { number := 0, text := "XIC(A) OTE(B)" }
    let rung : Rung := { number := 1, text := "[XIC(E_Stop) XIC(A),XIO(A),XIC(A) XIC(Guard_Safe)]OTE(B)" }
    let other : Rung := { number := 2, text := "[ XIO(A),XIC(Jam_Fault)]OTE(B)" }
    let p : Project := { programs := [{ name := "Main", routines := [{ name := "R", rungs := [rung] }] }] }
    let q : Project := { programs := [{ name := "Aux", routines := [{ name := "R", rungs := [other] }] }] }
    let v := View.ofRung "Main" "R" rung
    let w := View.ofRung "Aux" "R" other
    let second : BranchGroup := ⟨.general, [1], ["A"]⟩
    let first : BranchGroup := ⟨.general, [0], ["A"]⟩
    ((View.ofRung "Main" "R" linear).circuit.branches.length < 2 ∧
        ofView (View.ofRung "Main" "R" linear) (.ofProject p) = []) ∧
      (2 ≤ v.circuit.branches.length ∧ Divide (ofView v (.ofProject p)) v.circuit.branches) ∧
      ofView v (.ofProject p) = [⟨.safety, [0, 2], ["E_Stop", "A", "Guard_Safe"]⟩, second] ∧
      ofView w (.ofProject q) = [first, ⟨.fault, [1], ["Jam_Fault"]⟩] ∧
      second.topic = first.topic := by
  intro linear rung other p q v w second first
  have hfew : (View.ofRung "Main" "R" linear).circuit.branches.length < 2 := by decide +kernel
  have hmany : 2 ≤ v.circuit.branches.length := by decide +kernel
  have hv : ofView v (.ofProject p) = [⟨.safety, [0, 2], ["E_Stop", "A", "Guard_Safe"]⟩, second] := by
    decide +kernel
  have hw : ofView w (.ofProject q) = [first, ⟨.fault, [1], ["Jam_Fault"]⟩] := by decide +kernel
  have hb : v.circuit.branches[1]? = some (Circuit.branch "XIO(A)".toList 1) := by decide +kernel
  have hc : w.circuit.branches[0]? = some (Circuit.branch " XIO(A)".toList 0) := by decide +kernel
  have hsame : (Circuit.branch "XIO(A)".toList 1).instructions = (Circuit.branch " XIO(A)".toList 0).instructions := by
    decide +kernel
  have hagree : TagGraph.AgreeOn (Circuit.branch "XIO(A)".toList 1).tags (.ofProject p) (.ofProject q) := by
    unfold TagGraph.AgreeOn
    decide +kernel
  obtain ⟨-, hdivide, htopic⟩ := divide_ofView "Main" "R" rung (.ofProject p)
  refine ⟨⟨hfew, (divide_ofView "Main" "R" linear (.ofProject p)).1 hfew⟩, ⟨hmany, hdivide hmany⟩, hv, hw, ?_⟩
  have hsecond : second ∈ ofView v (.ofProject p) := by simp [hv]
  have hfirst : first ∈ ofView w (.ofProject q) := by simp [hw]
  exact htopic "Aux" "R" other (.ofProject q) second hsecond first hfirst 1 (by decide) 0 (by decide) _ _ hb hc
    hsame hagree

end BranchGroup

end LadderLogic
