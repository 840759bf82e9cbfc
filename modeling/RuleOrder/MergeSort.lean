/-!
# Merge sort by an arbitrary test

The list is cut in the middle, the first part being the shorter one, both parts are sorted and
then merged. In the merge the head of the second part goes first only when the test says that
it must go before the head of the first. The test need not be an order of any kind, so the
outcome is whatever this procedure makes of it. `mergeSortWithQueries` keeps beside the outcome
the questions that were put to the test, in the order in which they were put.
-/

namespace RuleOrder

namespace MergeSort

variable {α : Type}

/-- Merge two lists; the head of the second goes first where the test demands it. -/
def merge (before : α → α → Bool) (ls rs : List α) : List α :=
  ls.merge rs fun l r => !before r l

/-- The pairs that the merge of two lists puts to the test. -/
def mergeQueries (before : α → α → Bool) : List α → List α → List (α × α)
  | [], _ => []
  | _, [] => []
  | l :: ls, r :: rs =>
    (r, l) :: if before r l then mergeQueries before (l :: ls) rs
      else mergeQueries before ls (r :: rs)
termination_by ls rs => ls.length + rs.length

def firstHalf (xs : List α) : List α := xs.take (xs.length / 2)

def secondHalf (xs : List α) : List α := xs.drop (xs.length / 2)

theorem length_firstHalf_lt {xs : List α} (h : 2 ≤ xs.length) :
    (firstHalf xs).length < xs.length := by
  simp only [firstHalf, List.length_take]
  omega

theorem length_secondHalf_lt {xs : List α} (h : 2 ≤ xs.length) :
    (secondHalf xs).length < xs.length := by
  simp only [secondHalf, List.length_drop]
  omega

theorem firstHalf_append_secondHalf (xs : List α) : firstHalf xs ++ secondHalf xs = xs :=
  List.take_append_drop ..

end MergeSort

open MergeSort

variable {α : Type}

/-- The list sorted by the test. -/
def mergeSort (before : α → α → Bool) (xs : List α) : List α :=
  if 2 ≤ xs.length then
    merge before (mergeSort before (firstHalf xs)) (mergeSort before (secondHalf xs))
  else xs
termination_by xs.length
decreasing_by
  · exact length_firstHalf_lt (by assumption)
  · exact length_secondHalf_lt (by assumption)

/-- The sorted list, and the pairs that its sorting puts to the test, in order. -/
def mergeSortWithQueries (before : α → α → Bool) (xs : List α) : List α × List (α × α) :=
  if 2 ≤ xs.length then
    let (ls, leftQueries) := mergeSortWithQueries before (firstHalf xs)
    let (rs, rightQueries) := mergeSortWithQueries before (secondHalf xs)
    (merge before ls rs, leftQueries ++ rightQueries ++ mergeQueries before ls rs)
  else (xs, [])
termination_by xs.length
decreasing_by
  · exact length_firstHalf_lt (by assumption)
  · exact length_secondHalf_lt (by assumption)

theorem mergeSortWithQueries_fst (before : α → α → Bool) (xs : List α) :
    (mergeSortWithQueries before xs).1 = mergeSort before xs := by
  fun_induction mergeSort before xs with
  | case1 xs h ih₁ ih₂ => rw [mergeSortWithQueries, if_pos h, ← ih₁, ← ih₂]
  | case2 xs h => rw [mergeSortWithQueries, if_neg h]

theorem mergeSort_perm (before : α → α → Bool) (xs : List α) :
    (mergeSort before xs).Perm xs := by
  fun_induction mergeSort before xs with
  | case1 xs _ ih₁ ih₂ =>
    have h := (List.merge_perm_append (fun l r => !before r l)).trans (ih₁.append ih₂)
    rwa [firstHalf_append_secondHalf] at h
  | case2 => exact .refl _

end RuleOrder
