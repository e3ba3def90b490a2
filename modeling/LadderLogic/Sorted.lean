/-! Sorting that keeps the order of equals, and the ascending list of a set of numbers. -/
namespace LadderLogic

/-- Puts `a` in front of the first element that it may precede. -/
def insertSorted (le : α → α → Bool) (a : α) : List α → List α
  | [] => [a]
  | b :: rest => if le a b then a :: b :: rest else b :: insertSorted le a rest

/-- The list in the order of `le`; of two elements that may precede each other the earlier one stays in front. -/
def sortedBy (le : α → α → Bool) (xs : List α) : List α :=
  xs.foldr (insertSorted le) []

/-- The numbers once each, in ascending order. -/
def ascending (ns : List UInt32) : List UInt32 :=
  sortedBy (fun a b => a ≤ b) ns.eraseDups

end LadderLogic
