import LadderLogic.NameMap
import Mathlib.Data.List.Induction
import Mathlib.Data.List.Sort

/-! Looking up names in maps. The entries stand in the order of their names, so that a map is known by what is
found in it. -/
namespace LadderLogic.NameMap

@[simp] theorem get?_empty (name : String) : (empty : NameMap α).get? name = none := rfl

private theorem find?_insertEntry (name other : String) (a : α) (entries : List (String × α)) :
    (insertEntry name a entries).find? (fun e => e.1 == other) =
      if name = other then some (name, a) else entries.find? (fun e => e.1 == other) := by
  induction entries with
  | nil => by_cases h : name = other <;> simp [insertEntry, h]
  | cons e rest ih =>
    simp only [insertEntry]
    split
    · by_cases h : name = other <;> simp [h]
    · split
      · next heq =>
        -- The entry that is replaced has the name that is looked up, or neither has it.
        by_cases h : name = other
        · simp [h]
        · have he : e.1 ≠ other := heq ▸ h
          simp [h, he]
      · next hne =>
        rw [List.find?_cons, List.find?_cons, ih]
        by_cases h : name = other
        · have he : (e.1 == other) = false := beq_false_of_ne fun he => hne (h.trans he.symm)
          simp only [he, if_pos h]
        · simp only [if_neg h]

theorem get?_insert (m : NameMap α) (name other : String) (a : α) :
    (m.insert name a).get? other = if name = other then some a else m.get? other := by
  unfold get? insert
  rw [find?_insertEntry]
  split <;> rfl

@[simp] theorem get?_map (f : α → β) (m : NameMap α) (name : String) :
    (m.map f).get? name = (m.get? name).map f := by
  unfold get? map
  rw [List.find?_map, Option.map_map, Option.map_map]
  rfl

theorem pairwise_names (m : NameMap α) : m.names.Pairwise (· < ·) :=
  List.pairwise_map.2 m.ascending

theorem mem_names {m : NameMap α} {name : String} : name ∈ m.names ↔ (m.get? name).isSome := by
  simp [names, get?]

theorem contains_eq (m : NameMap α) (name : String) : m.contains name = (m.get? name).isSome := by
  rw [contains, get?, Option.isSome_map, List.isSome_find?]

theorem get?_eq_some_of_mem {m : NameMap α} {e : String × α} (h : e ∈ m.entries) :
    m.get? e.1 = some e.2 := by
  have hsome : (m.entries.find? fun f => f.1 == e.1).isSome :=
    List.find?_isSome.2 ⟨e, h, beq_self_eq_true e.1⟩
  obtain ⟨f, hf⟩ := Option.isSome_iff_exists.1 hsome
  have hname : f.1 = e.1 := by simpa using List.find?_some hf
  have hfe : f = e :=
    List.inj_on_of_nodup_map m.pairwise_names.nodup (List.mem_of_find?_eq_some hf) h hname
  rw [get?, hf, hfe, Option.map_some]

/-- If what is found under each name is related, the entries are related one by one. -/
theorem forall₂_entries {R : α → β → Prop} {m : NameMap α} {m' : NameMap β}
    (h : ∀ name, Option.Rel R (m.get? name) (m'.get? name)) :
    List.Forall₂ (fun a b => a.1 = b.1 ∧ R a.2 b.2) m.entries m'.entries := by
  -- Both lists of names are ascending, so they are equal once they have the same members.
  have hnames : m.names = m'.names := by
    apply m.pairwise_names.eq_of_mem_iff m'.pairwise_names
    intro name
    rw [mem_names, mem_names]
    have hrel := h name
    generalize m.get? name = a, m'.get? name = b at hrel
    cases hrel <;> simp
  have hlength : m.entries.length = m'.entries.length := by
    simpa [names] using congrArg List.length hnames
  refine List.forall₂_of_length_eq_of_get hlength fun i hi hi' => ?_
  have hname : (m.entries.get ⟨i, hi⟩).1 = (m'.entries.get ⟨i, hi'⟩).1 := by
    have hat := congrArg (·[i]?) hnames
    simpa [names, hi, hi'] using hat
  have hrel := h (m.entries.get ⟨i, hi⟩).1
  rw [get?_eq_some_of_mem (List.get_mem _ _), hname, get?_eq_some_of_mem (List.get_mem _ _)] at hrel
  cases hrel with
  | some hrel => exact ⟨hname, hrel⟩

theorem ext_get? {m m' : NameMap α} (h : ∀ name, m.get? name = m'.get? name) : m = m' := by
  have hrel : ∀ name, Option.Rel Eq (m.get? name) (m'.get? name) := by
    intro name
    rw [h name]
    cases m'.get? name with
    | none => exact .none
    | some a => exact .some rfl
  have hentries : List.Forall₂ Eq m.entries m'.entries :=
    (forall₂_entries hrel).imp fun _ _ hab => Prod.ext hab.1 hab.2
  rw [List.forall₂_eq_eq_eq] at hentries
  obtain ⟨entries, hascending⟩ := m
  obtain ⟨entries', hascending'⟩ := m'
  congr

theorem insert_comm (m : NameMap α) {name other : String} (h : name ≠ other) (a b : α) :
    (m.insert name a).insert other b = (m.insert other b).insert name a := by
  apply ext_get?
  intro x
  simp only [get?_insert]
  by_cases hname : name = x
  · have hother : other ≠ x := fun hx => h (hname.trans hx.symm)
    simp only [hname, hother, if_true, if_false]
  · simp only [hname, if_false]

/-- If no name stands twice, the order in which entries are put in a map does not matter. -/
theorem ofList_eq_of_perm {es fs : List (String × α)} (h : es.Perm fs) (hnodup : (es.map (·.1)).Nodup) :
    ofList es = ofList fs := by
  refine h.foldl_eq' (fun x hx y hy m => ?_) empty
  by_cases hname : x.1 = y.1
  · rw [List.inj_on_of_nodup_map hnodup hx hy hname]
  · exact insert_comm m hname x.2 y.2

/-- Of several entries with one name the last one is found. -/
theorem get?_ofList (es : List (String × α)) (name : String) :
    (ofList es).get? name = ((es.filter fun e => e.1 = name).getLast?).map (·.2) := by
  induction es using List.reverseRecOn with
  | nil => rfl
  | append_singleton es e ih =>
    have hconcat : ofList (es ++ [e]) = (ofList es).insert e.1 e.2 := by
      unfold ofList
      rw [List.foldl_append]
      rfl
    rw [hconcat, get?_insert, ih, List.filter_append]
    by_cases h : e.1 = name
    · simp [h]
    · simp [h]

/-- A map is made of its own entries. -/
theorem ofList_entries (m : NameMap α) : ofList m.entries = m := by
  apply ext_get?
  intro name
  rw [get?_ofList]
  cases hlast : (m.entries.filter fun e => e.1 = name).getLast? with
  | none =>
    have hnone : m.entries.filter (fun e => e.1 = name) = [] := List.getLast?_eq_none_iff.1 hlast
    have hnot : ¬(m.get? name).isSome := by
      intro hsome
      obtain ⟨e, he, hname⟩ := List.mem_map.1 (mem_names.2 hsome)
      have hmem : e ∈ m.entries.filter fun e => e.1 = name := List.mem_filter.2 ⟨he, by simpa using hname⟩
      rw [hnone] at hmem
      exact List.not_mem_nil hmem
    rw [Option.map_none, Option.not_isSome_iff_eq_none.1 hnot]
  | some e =>
    obtain ⟨he, hname⟩ := List.mem_filter.1 (List.mem_of_getLast? hlast)
    rw [Option.map_some, ← get?_eq_some_of_mem he, of_decide_eq_true hname]

/-- A map has no more entries than a list that has all its names. -/
theorem size_le {m : NameMap α} {names : List String} (h : ∀ name, (m.get? name).isSome → name ∈ names) :
    m.size ≤ names.length := by
  have hsubset : m.names ⊆ names := fun name hname => h name (mem_names.1 hname)
  have hle := (List.subperm_of_subset m.pairwise_names.nodup hsubset).length_le
  rwa [NameMap.names, List.length_map] at hle

/-- One more entry. If its name is known already, the known value and the new one are combined. -/
def mergeEntry (combine : α → α → α) (m : NameMap α) (e : String × α) : NameMap α :=
  m.insert e.1 (((m.get? e.1).map (combine · e.2)).getD e.2)

/-- The names of both maps. Under a name that both have, their values are combined. -/
def merge (combine : α → α → α) (m m' : NameMap α) : NameMap α :=
  m'.entries.foldl (mergeEntry combine) m

theorem get?_mergeEntry (combine : α → α → α) (m : NameMap α) (e : String × α) (name : String) :
    (m.mergeEntry combine e).get? name =
      if e.1 = name then Option.merge combine (m.get? name) (some e.2) else m.get? name := by
  unfold mergeEntry
  rw [get?_insert]
  split
  · next h =>
    rw [h]
    cases m.get? name <;> rfl
  · rfl

theorem get?_foldl_mergeEntry (combine : α → α → α) {es : List (String × α)} (hnodup : (es.map (·.1)).Nodup)
    (m : NameMap α) (name : String) :
    (es.foldl (mergeEntry combine) m).get? name =
      Option.merge combine (m.get? name) ((es.find? fun e => e.1 == name).map (·.2)) := by
  induction es generalizing m with
  | nil =>
    rw [List.foldl_nil, List.find?_nil, Option.map_none]
    cases m.get? name <;> rfl
  | cons e es ih =>
    rw [List.map_cons, List.nodup_cons] at hnodup
    rw [List.foldl_cons, ih hnodup.2, get?_mergeEntry]
    by_cases h : e.1 = name
    · -- The name of the first entry stands nowhere else.
      have hnone : es.find? (fun e => e.1 == name) = none := by
        rw [List.find?_eq_none]
        intro f hf heq
        have hname : f.1 = e.1 := (eq_of_beq heq).trans h.symm
        exact hnodup.1 (hname ▸ List.mem_map_of_mem hf)
      rw [if_pos h, hnone, List.find?_cons_of_pos (by simpa using h)]
      cases m.get? name <;> rfl
    · rw [if_neg h, List.find?_cons_of_neg (by simpa using h)]

theorem get?_merge (combine : α → α → α) (m m' : NameMap α) (name : String) :
    (m.merge combine m').get? name = Option.merge combine (m.get? name) (m'.get? name) :=
  get?_foldl_mergeEntry combine m'.pairwise_names.nodup m name

end LadderLogic.NameMap
