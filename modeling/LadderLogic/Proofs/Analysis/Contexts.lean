import LadderLogic.Analysis.Basic
import LadderLogic.Proofs.NameMap
import LadderLogic.Proofs.Sorted

/-! The contexts of an analysis, filed under the keys of their rungs. A key tells where its rung stands,
whatever the routine is called, if the name of the program has no slash. -/
namespace LadderLogic

/-- Where a text is cut at the first `c`, both parts are known. -/
theorem eq_and_eq_of_append_cons_eq {c : α} {xs ys xs' ys' : List α} (hxs : c ∉ xs) (hxs' : c ∉ xs')
    (h : xs ++ c :: ys = xs' ++ c :: ys') : xs = xs' ∧ ys = ys' := by
  rw [List.append_eq_append_iff] at h
  rcases h with ⟨zs, hxs'_eq, hys⟩ | ⟨zs, hxs_eq, hys⟩
  · cases zs with
    | nil => simp_all
    | cons z zs =>
      have hz : c = z := (List.cons.inj hys).1
      exact absurd (by simp [hxs'_eq, hz]) hxs'
  · cases zs with
    | nil => simp_all
    | cons z zs =>
      have hz : c = z := (List.cons.inj hys).1
      exact absurd (by simp [hxs_eq, hz]) hxs

namespace Location

theorem toList_key (l : Location) :
    l.key.toList =
      l.program.toList ++ '/' :: (l.routine.toList ++ ':' :: Nat.toDigits 10 l.number.toNat) := by
  have hslash : "/".toList = ['/'] := rfl
  have hcolon : ":".toList = [':'] := rfl
  simp only [key, String.toList_append, hslash, hcolon, Nat.toString_eq_repr, Nat.toList_repr,
    List.append_assoc, List.cons_append, List.nil_append]

theorem colon_not_mem_toDigits (n : Nat) : ':' ∉ Nat.toDigits 10 n := by
  intro h
  have hdigit := Nat.isDigit_of_mem_toDigits (by decide) (by decide) h
  exact absurd hdigit (by decide)

theorem eq_of_key_eq {l m : Location} (hl : '/' ∉ l.program.toList) (hm : '/' ∉ m.program.toList)
    (h : l.key = m.key) : l = m := by
  have hchars := congrArg String.toList h
  rw [toList_key, toList_key] at hchars
  obtain ⟨hprogram, hrest⟩ := eq_and_eq_of_append_cons_eq hl hm hchars
  -- Seen from the end, the first colon is the one before the number.
  have hreverse := congrArg List.reverse hrest
  simp only [List.reverse_append, List.reverse_cons, List.append_assoc, List.singleton_append] at hreverse
  have hcolon : ∀ n, ':' ∉ (Nat.toDigits 10 n).reverse := fun n =>
    List.mem_reverse.not.2 (colon_not_mem_toDigits n)
  obtain ⟨hdigits, hroutine⟩ := eq_and_eq_of_append_cons_eq (hcolon _) (hcolon _) hreverse
  have hnumber : l.number.toNat = m.number.toNat := by
    have hvalue := congrArg (Nat.ofDigitChars 10 · 0) (List.reverse_inj.1 hdigits)
    simpa only [Nat.ofDigitChars_ten_toDigits] using hvalue
  obtain ⟨program, routine, number⟩ := l
  obtain ⟨program', routine', number'⟩ := m
  rw [mk.injEq]
  exact ⟨String.toList_inj.1 hprogram, String.toList_inj.1 (List.reverse_inj.1 hroutine),
    UInt32.toNat_inj.1 hnumber⟩

-- A slash in the name of a program can stand for the one that ends it.
example : (⟨"A/B", "C", 1⟩ : Location).key = (⟨"A", "B/C", 1⟩ : Location).key := by decide

end Location

/-- Where the rungs stand, in order. -/
def Project.locations (p : Project) : List Location :=
  p.rungs.map (·.1)

theorem Project.exists_program_of_mem_locations {p : Project} {l : Location} (h : l ∈ p.locations) :
    ∃ program ∈ p.programs, program.name = l.program := by
  simp only [locations, rungs, List.mem_map, List.mem_flatMap] at h
  obtain ⟨_, ⟨program, hprogram, routine, -, rung, -, rfl⟩, rfl⟩ := h
  exact ⟨program, hprogram, rfl⟩

namespace Analysis

theorem get?_contexts (p : Project) (settings : Settings) (key : String) :
    (ofProject p settings).contexts.get? key =
      ((p.rungs.filter fun r => r.1.key = key).getLast?).map fun r =>
        Context.ofView (View.ofRung r.1.program r.1.routine r.2) (.ofProject p) settings := by
  simp only [ofProject, contextsOf, NameMap.get?_ofList, List.map_map, List.filter_map, List.getLast?_map,
    Option.map_map, Function.comp_def]

theorem mem_names_contexts {p : Project} {settings : Settings} {key : String} :
    key ∈ (ofProject p settings).contexts.names ↔ ∃ l ∈ p.locations, l.key = key := by
  rw [NameMap.mem_names, get?_contexts, Option.isSome_map, List.getLast?_isSome]
  simp [Project.locations, List.filter_eq_nil_iff]

/-- If no program has a slash in its name, the contexts are one for each location that has a rung,
and the context of a location is that of its last rung. -/
theorem contexts_ofProject {p : Project} (h : ∀ program ∈ p.programs, '/' ∉ program.name.toList)
    (settings : Settings) :
    let contexts := (ofProject p settings).contexts
    Set.InjOn Location.key {l | l ∈ p.locations} ∧
      contexts.names.Perm (p.locations.eraseDups.map Location.key) ∧
      ∀ l ∈ p.locations, ∃ rung, (p.rungs.filter fun r => r.1 = l).getLast? = some (l, rung) ∧
        contexts.get? l.key =
          some (Context.ofView (View.ofRung l.program l.routine rung) (.ofProject p) settings) := by
  intro contexts
  have hslash : ∀ l ∈ p.locations, '/' ∉ l.program.toList := by
    intro l hl
    obtain ⟨program, hprogram, hname⟩ := Project.exists_program_of_mem_locations hl
    exact hname ▸ h program hprogram
  have hinj : ∀ l ∈ p.locations, ∀ m ∈ p.locations, l.key = m.key → l = m :=
    fun l hl m hm => Location.eq_of_key_eq (hslash l hl) (hslash m hm)
  refine ⟨fun l hl m hm => hinj l hl m hm, ?_, ?_⟩
  · have hkeys : (p.locations.eraseDups.map Location.key).Nodup := by
      refine List.Nodup.map_on (fun l hl m hm => ?_) (nodup_eraseDups p.locations)
      exact hinj l (List.mem_eraseDups.1 hl) m (List.mem_eraseDups.1 hm)
    rw [List.perm_ext_iff_of_nodup (NameMap.pairwise_names contexts).nodup hkeys]
    intro key
    rw [mem_names_contexts]
    simp only [List.mem_map, List.mem_eraseDups]
  · intro l hl
    -- The rungs under the key of the location are the rungs of the location.
    have hfilter : (p.rungs.filter fun r => r.1.key = l.key) = p.rungs.filter fun r => r.1 = l := by
      apply List.filter_congr
      intro r hr
      have hiff : r.1.key = l.key ↔ r.1 = l :=
        ⟨hinj r.1 (List.mem_map_of_mem hr) l hl, fun heq => congrArg Location.key heq⟩
      exact decide_eq_decide.2 hiff
    obtain ⟨r, hr, hrl⟩ := List.mem_map.1 hl
    have hne : (p.rungs.filter fun r => r.1 = l) ≠ [] :=
      List.ne_nil_of_mem (List.mem_filter.2 ⟨hr, decide_eq_true hrl⟩)
    obtain ⟨last, hlast⟩ := Option.isSome_iff_exists.1 (List.getLast?_isSome.2 hne)
    have hlocation : last.1 = l := by
      have hmem := List.mem_of_getLast? hlast
      exact of_decide_eq_true (List.mem_filter.1 hmem).2
    obtain ⟨m, rung⟩ := last
    subst hlocation
    refine ⟨rung, hlast, ?_⟩
    rw [get?_contexts, hfilter, hlast, Option.map_some]

theorem contexts_ofProject_repeated_number :
    let up : Rung := { number := 7, text := "XIC(A) OTE(B)" }
    let down : Rung := { number := 7, text := "OTU(B)" }
    let routines : List Routine := [{ name := "R/1:2", rungs := [up, down] }, { name := "R", rungs := [up] }]
    let p : Project := { programs := [{ name := "Main", routines }] }
    (∀ program ∈ p.programs, '/' ∉ program.name.toList) ∧
      (ofProject p {}).contexts.names.Perm ["Main/R/1:2:7", "Main/R:7"] ∧
      (ofProject p {}).contexts.get? "Main/R/1:2:7" =
        some (Context.ofView (View.ofRung "Main" "R/1:2" down) (.ofProject p) {}) := by
  intro up down routines p
  have h : ∀ program ∈ p.programs, '/' ∉ program.name.toList := by decide
  have hkeys : p.locations.eraseDups.map Location.key = ["Main/R/1:2:7", "Main/R:7"] := by decide +kernel
  obtain ⟨-, hnames, hcontexts⟩ := contexts_ofProject h {}
  obtain ⟨rung, hlast, hget⟩ := hcontexts ⟨"Main", "R/1:2", 7⟩ (by decide)
  have hdown : rung = down := by
    have heq := hlast.symm.trans
      (show _ = some (⟨"Main", "R/1:2", 7⟩, down) by decide +kernel)
    exact congrArg Prod.snd (Option.some.inj heq)
  subst hdown
  exact ⟨h, hkeys ▸ hnames, hget⟩

end Analysis

end LadderLogic
