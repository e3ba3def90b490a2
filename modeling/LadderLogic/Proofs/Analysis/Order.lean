import LadderLogic.Analysis.Basic
import LadderLogic.Proofs.Context.Isolation
import LadderLogic.Proofs.Tag.Order

/-! The analysis of a project whose rungs stand in another order. Only the references to a tag and the list of
patterns follow the order of the rungs. -/
namespace LadderLogic

namespace TagUsage.Reordered

variable {t u : TagUsage}

theorem referenceCount (h : t.Reordered u) : t.referenceCount = u.referenceCount :=
  congrArg₂ (· + ·) h.readers.length_eq h.writers.length_eq

theorem isEligible (h : t.Reordered u) (minReferences : Nat) :
    KeyTag.isEligible minReferences t = KeyTag.isEligible minReferences u := by
  rw [KeyTag.isEligible, KeyTag.isEligible, h.role, h.referenceCount]

theorem ofUsage (h : t.Reordered u) : KeyTag.ofUsage t = KeyTag.ofUsage u := by
  rw [KeyTag.ofUsage, KeyTag.ofUsage, h.name, h.role, h.readers.length_eq, h.writers.length_eq,
    h.referenceCount]

end TagUsage.Reordered

namespace TagGraph.Reordered

variable {g h : TagGraph}

theorem othersUsing (hgraph : g.Reordered h) (v : View) : v.othersUsing g = v.othersUsing h := by
  funext tag usage
  unfold View.othersUsing
  rw [hgraph.rungsUsing]

theorem keyPoints (hgraph : g.Reordered h) (v : View) (patterns : List Pattern) (p : Purpose)
    (optionBits : Bool) :
    KeyPoint.all v patterns g p optionBits = KeyPoint.all v patterns h p optionBits := by
  simp only [KeyPoint.all, KeyPoint.readers, KeyPoint.writers, hgraph.othersUsing]

theorem context (hgraph : g.Reordered h) (v : View) (settings : Settings) :
    Context.ofView v g settings = Context.ofView v h settings := by
  have hroles : ∀ tags, AgreeOn tags g h := fun _ tag _ => hgraph.roleOf tag
  have hrelated : v.relatedRungs g = v.relatedRungs h := by
    simp only [View.relatedRungs, hgraph.othersUsing]
  have hgroups : BranchGroup.ofView v g = BranchGroup.ofView v h :=
    AgreeOn.branchGroups fun b _ => hroles b.tags
  simp only [Context.ofView, (hroles v.tags).category, (hroles v.tags).isSafetyRelevant, hrelated,
    hgraph.keyPoints, hgroups]

theorem keyTags (hgraph : g.Reordered h) (settings : Settings) :
    KeyTag.ofGraph g settings = KeyTag.ofGraph h settings := by
  have hentries := hgraph.forall₂_entries
  unfold KeyTag.ofGraph NameMap.values
  generalize g.tags.entries = as, h.tags.entries = bs at hentries
  -- The lists that are sorted are equal: a key tag counts references and does not have them.
  congr 2
  induction hentries with
  | nil => rfl
  | cons hab _ ih =>
    rw [List.map_cons, List.map_cons, List.filter_cons, List.filter_cons, hab.2.isEligible]
    split
    · rw [List.map_cons, List.map_cons, hab.2.ofUsage, ih]
    · exact ih

end TagGraph.Reordered

theorem histogram_eq_of_perm [DecidableEq α] {xs ys : List α} (h : xs.Perm ys) (all : List α) :
    histogram all xs = histogram all ys := by
  simp only [histogram, h.count_eq]

theorem Summary.ofContexts_eq_of_perm {cs ds : List Context} (hperm : cs.Perm ds) {g h : TagGraph}
    (hgraph : g.Reordered h) (settings : Settings) :
    ofContexts cs g settings = ofContexts ds h settings := by
  have hpatterns := histogram_eq_of_perm ((hperm.flatMap_right (·.patterns)).map (·.kind)) PatternKind.all
  have hcategories := histogram_eq_of_perm (hperm.map (·.category)) Category.all
  have htags : g.tags.size = h.tags.size := hgraph.forall₂_entries.length_eq
  simp only [ofContexts, hperm.length_eq, hperm.countP_eq, hpatterns, hcategories, htags, hgraph.unreferenced,
    hgraph.keyTags]

namespace Analysis

theorem perm_contextsOf {p q : Project} (hrungs : p.rungs.Perm q.rungs) {g h : TagGraph}
    (hgraph : g.Reordered h) (settings : Settings) :
    (contextsOf p g settings).Perm (contextsOf q h settings) := by
  unfold contextsOf
  simp only [hgraph.context]
  exact hrungs.map _

/-- If the keys of the rungs do not repeat, the order of rungs in routines and of routines in
programs does not matter to the contexts and the summary. It orders the references to each tag and
the list of patterns, and nothing else. -/
theorem ofProject_reordered {p q : Project} (h : p.Reordered q) (hkeys : (p.rungs.map (·.1.key)).Nodup)
    (settings : Settings) :
    let a := ofProject p settings
    let b := ofProject q settings
    a.contexts = b.contexts ∧ a.summary = b.summary ∧
      List.Forall₂ (fun s t => s.1 = t.1 ∧ s.2.Reordered t.2) a.tagUsage.entries b.tagUsage.entries ∧
      a.patterns.Perm b.patterns := by
  -- The graph tells rungs apart by location, the map of contexts by key.
  have hlocations : (p.rungs.map (·.1)).Nodup := by
    apply List.Nodup.of_map Location.key
    rwa [List.map_map]
  have hgraph := TagGraph.reordered_ofProject h.perm_rungs hlocations h.declaredTags
  have hperm := perm_contextsOf h.perm_rungs hgraph settings
  have hnames : ((contextsOf p (.ofProject p) settings).map fun x => (x.1.key, x.2)).map (·.1) =
      p.rungs.map (·.1.key) := by
    simp only [contextsOf, List.map_map, Function.comp_def]
  refine ⟨?_, ?_, hgraph.forall₂_entries, ?_⟩
  · exact NameMap.ofList_eq_of_perm (hperm.map _) (hnames ▸ hkeys)
  · exact Summary.ofContexts_eq_of_perm (hperm.map _) hgraph settings
  · exact hperm.flatMap_right _

theorem ofProject_reordered_routines :
    let up : Rung := { number := 1, text := "XIC(A) OTE(B)" }
    let down : Rung := { number := 2, text := "XIC(B) OTE(A)" }
    let first (rungs : List Rung) : Routine := { name := "R1", rungs }
    let second : Routine := { name := "R2", rungs := [up] }
    let p : Project := { programs := [{ name := "Main", routines := [first [up, down], second] }] }
    let q : Project := { programs := [{ name := "Main", routines := [second, first [down, up]] }] }
    (p.Reordered q ∧ (p.rungs.map (·.1.key)).Nodup) ∧
      (ofProject p {}).tagUsage ≠ (ofProject q {}).tagUsage ∧
      (ofProject p {}).contexts = (ofProject q {}).contexts := by
  intro up down first second p q
  have hfirst : (first [up, down]).Reordered (first [down, up]) := ⟨rfl, rfl, .swap down up []⟩
  have hsecond : second.Reordered second := ⟨rfl, rfl, .refl _⟩
  have hroutines : [first [up, down], second].Perm [second, first [up, down]] := .swap second _ []
  have h : p.Reordered q :=
    ⟨.cons ⟨rfl, ⟨_, hroutines, .cons hsecond (.cons hfirst .nil)⟩, rfl⟩ .nil, rfl⟩
  have hkeys : (p.rungs.map (·.1.key)).Nodup := by decide +kernel
  exact ⟨⟨h, hkeys⟩, by decide +kernel, (ofProject_reordered h hkeys {}).1⟩

end Analysis

end LadderLogic
