import LadderLogic.Sorted
import Mathlib.Data.List.Sort

/-! Sorting keeps the order of equals, and the ascending list of a set of numbers. -/
namespace LadderLogic

theorem insertSorted_eq_orderedInsert (le : α → α → Bool) (a : α) (xs : List α) :
    insertSorted le a xs = xs.orderedInsert (fun a b => le a b) a := by
  induction xs with
  | nil => rfl
  | cons b rest ih => simp [insertSorted, ih]

theorem sortedBy_eq_insertionSort (le : α → α → Bool) (xs : List α) :
    sortedBy le xs = xs.insertionSort fun a b => le a b := by
  induction xs with
  | nil => rfl
  | cons a rest ih =>
    rw [List.insertionSort_cons, ← ih, ← insertSorted_eq_orderedInsert]
    rfl

theorem perm_sortedBy (le : α → α → Bool) (xs : List α) : (sortedBy le xs).Perm xs := by
  rw [sortedBy_eq_insertionSort]
  exact List.perm_insertionSort _ xs

/-- An element that stood before the others stays before those that it may change places with. -/
theorem pairwise_insertSorted {le : α → α → Bool} (htotal : ∀ a b, le a b = true ∨ le b a = true)
    (htrans : ∀ a b c, le a b = true → le b c = true → le a c = true) {R : α → α → Prop} {a : α} {ys : List α}
    (ha : ∀ b ∈ ys, R a b) (hys : ys.Pairwise fun b c => le b c = true ∧ (le c b = true → R b c)) :
    (insertSorted le a ys).Pairwise fun b c => le b c = true ∧ (le c b = true → R b c) := by
  induction ys with
  | nil => simp [insertSorted]
  | cons b rest ih =>
    have hb := List.pairwise_cons.1 hys
    unfold insertSorted
    split
    · next hab =>
      refine List.pairwise_cons.2 ⟨fun c hc => ⟨?_, fun _ => ha c hc⟩, hys⟩
      rcases List.mem_cons.1 hc with rfl | hc
      · exact hab
      · exact htrans a b c hab (hb.1 c hc).1
    · next hab =>
      have hba := (htotal a b).resolve_left hab
      refine List.pairwise_cons.2 ⟨fun c hc => ?_, ih (fun c hc => ha c (.tail b hc)) hb.2⟩
      rw [insertSorted_eq_orderedInsert, List.mem_orderedInsert] at hc
      rcases hc with rfl | hc
      · exact ⟨hba, fun h => absurd h hab⟩
      · exact hb.1 c hc

/-- The sorted list is in order, and elements that may precede each other stand as they stood before. -/
theorem pairwise_sortedBy {le : α → α → Bool} (htotal : ∀ a b, le a b = true ∨ le b a = true)
    (htrans : ∀ a b c, le a b = true → le b c = true → le a c = true) {R : α → α → Prop} {xs : List α}
    (hxs : xs.Pairwise R) :
    (sortedBy le xs).Pairwise fun a b => le a b = true ∧ (le b a = true → R a b) := by
  induction hxs with
  | nil => exact .nil
  | cons ha _ ih =>
    apply pairwise_insertSorted htotal htrans _ ih
    intro b hb
    exact ha b ((perm_sortedBy le _).mem_iff.1 hb)

theorem nodup_eraseDups [BEq α] [LawfulBEq α] (xs : List α) : xs.eraseDups.Nodup := by
  induction h : xs.length using Nat.strong_induction_on generalizing xs with
  | _ n ih =>
    cases xs with
    | nil => simp
    | cons a rest =>
      rw [List.eraseDups_cons, List.nodup_cons]
      refine ⟨by simp, ih _ ?_ _ rfl⟩
      have := List.length_filter_le (fun b => !b == a) rest
      simp only [List.length_cons] at h
      omega

@[simp] theorem mem_ascending {n : UInt32} {ns : List UInt32} : n ∈ ascending ns ↔ n ∈ ns := by
  unfold ascending
  rw [(perm_sortedBy _ _).mem_iff, List.mem_eraseDups]

theorem pairwise_ascending (ns : List UInt32) : (ascending ns).Pairwise (· < ·) := by
  have htotal : ∀ a b : UInt32, decide (a ≤ b) = true ∨ decide (b ≤ a) = true := by
    simpa using UInt32.le_total
  have htrans : ∀ a b c : UInt32, decide (a ≤ b) = true → decide (b ≤ c) = true → decide (a ≤ c) = true := by
    simpa using fun _ _ _ => UInt32.le_trans
  refine (pairwise_sortedBy htotal htrans (nodup_eraseDups ns)).imp fun {a b} ⟨hle, hne⟩ => ?_
  have hab := of_decide_eq_true hle
  refine UInt32.lt_of_le_of_ne hab fun heq => ?_
  exact hne (decide_eq_true (heq ▸ hab)) heq

theorem ascending_eq_of_mem_iff {ns ms : List UInt32} (h : ∀ n, n ∈ ns ↔ n ∈ ms) :
    ascending ns = ascending ms := by
  apply (pairwise_ascending ns).eq_of_mem_iff (pairwise_ascending ms)
  simpa using h

end LadderLogic
