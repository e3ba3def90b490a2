import LadderLogic.Analysis.Basic
import LadderLogic.Proofs.Sorted
import LadderLogic.Proofs.Tag.References

/-! The key tags of a project: the first ones of a ranking by use and name, in which no two tags share a rank.
-/
namespace LadderLogic

namespace NameMap

theorem mem_values {m : NameMap α} {a : α} : a ∈ m.values ↔ ∃ name, m.get? name = some a := by
  constructor
  · intro h
    obtain ⟨e, he, rfl⟩ := List.mem_map.1 h
    exact ⟨e.1, get?_eq_some_of_mem he⟩
  · rintro ⟨name, h⟩
    obtain ⟨e, he, rfl⟩ := Option.map_eq_some_iff.1 h
    exact List.mem_map_of_mem (List.mem_of_find?_eq_some he)

end NameMap

/-- The tags of a graph stand in the order of their names. -/
theorem TagGraph.pairwise_name_values (p : Project) :
    (ofProject p).tags.values.Pairwise fun t u => t.name < u.name := by
  have hname : ∀ e ∈ (ofProject p).tags.entries, e.2.name = e.1 :=
    fun e he => name_of_get?_ofProject (NameMap.get?_eq_some_of_mem he)
  refine List.pairwise_map.2 ((ofProject p).tags.ascending.imp_of_mem fun {e f} he hf hlt => ?_)
  rw [hname e he, hname f hf]
  exact hlt

namespace KeyTag

/-- More references, or as many and a name that comes first. -/
def RanksBefore (a b : KeyTag) : Prop :=
  b.references < a.references ∨ a.references = b.references ∧ a.name < b.name

theorem precedes_iff {a b : KeyTag} :
    precedes a b = true ↔ b.references < a.references ∨ a.references = b.references ∧ a.name ≤ b.name := by
  simp [precedes]

theorem precedes_total (a b : KeyTag) : precedes a b = true ∨ precedes b a = true := by
  rw [precedes_iff, precedes_iff]
  rcases Nat.lt_trichotomy a.references b.references with hlt | heq | hgt
  · exact .inr (.inl hlt)
  · rcases String.le_total a.name b.name with hle | hge
    · exact .inl (.inr ⟨heq, hle⟩)
    · exact .inr (.inr ⟨heq.symm, hge⟩)
  · exact .inl (.inl hgt)

theorem precedes_trans {a b c : KeyTag} (hab : precedes a b = true) (hbc : precedes b c = true) :
    precedes a c = true := by
  rw [precedes_iff] at hab hbc ⊢
  rcases hab with hlt | ⟨heq, hle⟩
  · left
    rcases hbc with hlt' | ⟨heq', -⟩ <;> omega
  · rcases hbc with hlt' | ⟨heq', hle'⟩
    · left
      omega
    · exact .inr ⟨heq.trans heq', String.le_trans hle hle'⟩

/-- A ranking of tags with different names leaves no two in one place. -/
theorem pairwise_ranksBefore {ks : List KeyTag} (h : ks.Pairwise fun a b => a.name < b.name) :
    (sortedBy precedes ks).Pairwise RanksBefore := by
  refine (pairwise_sortedBy precedes_total (fun a b c => precedes_trans) h).imp fun {a b} ⟨hab, hties⟩ => ?_
  rcases precedes_iff.1 hab with hlt | ⟨heq, hle⟩
  · exact .inl hlt
  · refine .inr ⟨heq, ?_⟩
    -- Of two names one comes first, and that of `a` stood first before the sorting.
    by_contra hnot
    exact hnot (hties (precedes_iff.2 (.inr ⟨heq.symm, String.not_lt.1 hnot⟩)))

/-- A tag of safety, of a motor or of a fault, or one that so many rungs read and write. -/
def IsKey (minReferences : Nat) (t : TagUsage) : Prop :=
  t.role = .safety ∨ t.role = .motor ∨ t.role = .fault ∨ minReferences ≤ t.readers.length + t.writers.length

instance (minReferences : Nat) : DecidablePred (IsKey minReferences) :=
  fun _ => inferInstanceAs (Decidable (_ ∨ _ ∨ _ ∨ _))

theorem isEligible_iff {minReferences : Nat} {t : TagUsage} :
    isEligible minReferences t = true ↔ IsKey minReferences t := by
  simp only [isEligible, IsKey, Bool.or_eq_true, List.contains_iff_mem, List.mem_cons, List.not_mem_nil, or_false,
    or_assoc, decide_eq_true_iff]
  rfl

/-- The first tags of the ranking, at most so many. -/
structure IsTop (graph : TagGraph) (minReferences most : Nat) (keys : List KeyTag) : Prop where
  length_eq : keys.length = min most (graph.tags.values.countP (IsKey minReferences ·))
  nodup : (keys.map (·.name)).Nodup
  ordered : keys.Pairwise RanksBefore
  counts : ∀ k ∈ keys, ∃ t, graph.get? k.name = some t ∧ IsKey minReferences t ∧
    k = ⟨k.name, t.role, t.readers.length, t.writers.length, t.readers.length + t.writers.length⟩
  before_rest : ∀ name t, graph.get? name = some t → IsKey minReferences t → name ∉ keys.map (·.name) →
    ∀ k ∈ keys, t.readers.length + t.writers.length < k.references ∨
      k.references = t.readers.length + t.writers.length ∧ k.name < name

/-- All tags that may be key tags, in the order of the ranking. -/
def ranking (graph : TagGraph) (minReferences : Nat) : List KeyTag :=
  sortedBy precedes ((graph.tags.values.filter (isEligible minReferences)).map ofUsage)

theorem ofGraph_eq_take (graph : TagGraph) (settings : Settings) :
    ofGraph graph settings =
      (ranking graph settings.keyTagMinReferences.toNat).take settings.maxKeyTags.toNat := rfl

section Ranking
variable (p : Project) (minReferences : Nat)

theorem mem_ranking {k : KeyTag} :
    k ∈ ranking (.ofProject p) minReferences ↔
      ∃ t, (TagGraph.ofProject p).get? k.name = some t ∧ IsKey minReferences t ∧ k = ofUsage t := by
  unfold ranking
  rw [(perm_sortedBy _ _).mem_iff]
  simp only [List.mem_map, List.mem_filter, NameMap.mem_values, isEligible_iff]
  constructor
  · rintro ⟨t, ⟨⟨name, hget⟩, hkey⟩, rfl⟩
    obtain rfl : t.name = name := TagGraph.name_of_get?_ofProject hget
    exact ⟨t, hget, hkey, rfl⟩
  · rintro ⟨t, hget, hkey, rfl⟩
    exact ⟨t, ⟨⟨_, hget⟩, hkey⟩, rfl⟩

theorem pairwise_ranking : (ranking (.ofProject p) minReferences).Pairwise RanksBefore := by
  apply pairwise_ranksBefore
  rw [List.pairwise_map]
  exact (TagGraph.pairwise_name_values p).filter _

theorem nodup_name_ranking : ((ranking (.ofProject p) minReferences).map (·.name)).Nodup := by
  have hnames := (TagGraph.pairwise_name_values p).filter (isEligible minReferences)
  unfold ranking
  rw [((perm_sortedBy _ _).map _).nodup_iff, List.map_map]
  refine List.pairwise_map.2 (hnames.imp fun {t u} hlt (heq : t.name = u.name) => ?_)
  exact String.lt_irrefl _ (heq ▸ hlt)

theorem length_ranking :
    (ranking (.ofProject p) minReferences).length =
      (TagGraph.ofProject p).tags.values.countP (IsKey minReferences ·) := by
  unfold ranking
  rw [(perm_sortedBy _ _).length_eq, List.length_map, ← List.countP_eq_length_filter]
  refine List.countP_congr fun t _ => ?_
  rw [isEligible_iff, decide_eq_true_iff]

end Ranking

/-- What is cut off from the ranking comes after what is kept. -/
theorem isTop_take_ranking (p : Project) (minReferences most : Nat) :
    IsTop (.ofProject p) minReferences most ((ranking (.ofProject p) minReferences).take most) := by
  have hsublist := List.take_sublist most (ranking (.ofProject p) minReferences)
  have hordered := pairwise_ranking p minReferences
  refine ⟨?_, ?_, hordered.sublist hsublist, ?_, ?_⟩
  · rw [List.length_take, length_ranking]
  · exact (nodup_name_ranking p minReferences).sublist (hsublist.map _)
  · intro k hk
    obtain ⟨t, hget, hkey, rfl⟩ := (mem_ranking p minReferences).1 (hsublist.mem hk)
    exact ⟨t, hget, hkey, rfl⟩
  · intro name t hget hkey hnot k hk
    obtain rfl : t.name = name := TagGraph.name_of_get?_ofProject hget
    have hmem : ofUsage t ∈ ranking (.ofProject p) minReferences :=
      (mem_ranking p minReferences).2 ⟨t, hget, hkey, rfl⟩
    rw [← List.take_append_drop most (ranking (.ofProject p) minReferences)] at hmem hordered
    rcases List.mem_append.1 hmem with hkept | hcut
    · exact absurd (List.mem_map_of_mem hkept) hnot
    · exact (List.pairwise_append.1 hordered).2.2 k hk _ hcut

end KeyTag

/-- Whatever is concluded about the rungs of a project, the summary has the first key tags of the ranking, as
many as the settings admit. To admit more of them only appends the next ones. -/
theorem Summary.isTop_keyTags (p : Project) (contexts : List Context) (settings : Settings) :
    let keys := (ofContexts contexts (.ofProject p) settings).keyTags
    KeyTag.IsTop (.ofProject p) settings.keyTagMinReferences.toNat settings.maxKeyTags.toNat keys ∧
      ∀ most, settings.maxKeyTags ≤ most →
        keys <+: (ofContexts contexts (.ofProject p) { settings with maxKeyTags := most }).keyTags := by
  intro keys
  have hkeys : keys = KeyTag.ofGraph (.ofProject p) settings := rfl
  rw [hkeys, KeyTag.ofGraph_eq_take]
  refine ⟨KeyTag.isTop_take_ranking _ _ _, ?_⟩
  intro most hmost
  exact List.take_prefix_take_left (UInt64.le_iff_toNat_le.1 hmost)

/-- The cut separates two tags that are used equally often. -/
theorem Summary.isTop_keyTags_tie :
    let rungs : List Rung :=
      [{ number := 0, text := "XIC(B) XIC(A) OTE(Lamp)" }, { number := 1, text := "XIO(A) XIO(B) OTE(Pump_Motor)" }]
    let p : Project := { programs := [{ name := "Main", routines := [{ name := "R1", rungs }] }] }
    let one := (ofContexts [] (.ofProject p) { maxKeyTags := 1, keyTagMinReferences := 2 }).keyTags
    let four := (ofContexts [] (.ofProject p) { maxKeyTags := 4, keyTagMinReferences := 2 }).keyTags
    ((1 : UInt64) ≤ 4 ∧ KeyTag.IsTop (.ofProject p) 2 1 one ∧ one <+: four) ∧
      one = [⟨"A", .unknown, 2, 0, 2⟩] ∧
      four = [⟨"A", .unknown, 2, 0, 2⟩, ⟨"B", .unknown, 2, 0, 2⟩, ⟨"Pump_Motor", .motor, 0, 1, 1⟩] := by
  intro rungs p one four
  have hle : (1 : UInt64) ≤ 4 := by decide
  obtain ⟨htop, hmore⟩ := isTop_keyTags p [] { maxKeyTags := 1, keyTagMinReferences := 2 }
  exact ⟨⟨hle, htop, hmore 4 hle⟩, by decide +kernel, by decide +kernel⟩

end LadderLogic
