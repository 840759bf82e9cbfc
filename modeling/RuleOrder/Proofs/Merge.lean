import Mathlib.Data.List.Chain
import Mathlib.Tactic.Common
import RuleOrder.MergeSort

/-!
What a merge sort makes of neighbours.

Two items become neighbours in one merge, which either puts them to the test or finds them side
by side in one of its parts. So of any two neighbours in the outcome it is known how the test
decides between them, whatever the test is.
-/

namespace RuleOrder

variable {α : Type} {before : α → α → Bool} {R : α → α → Prop}

namespace MergeSort

lemma merge_cons_cons (l r : α) (ls rs : List α) :
    merge before (l :: ls) (r :: rs) =
      if before r l = true then r :: merge before (l :: ls) rs
      else l :: merge before ls (r :: rs) := by
  unfold merge
  rw [List.cons_merge_cons]
  cases before r l <;> rfl

lemma merge_nil_left (rs : List α) : merge before [] rs = rs := by simp [merge]

lemma merge_nil_right (ls : List α) : merge before ls [] = ls := by simp [merge]

lemma mem_merge {x : α} {ls rs : List α} : x ∈ merge before ls rs ↔ x ∈ ls ∨ x ∈ rs := by
  unfold merge
  rw [(List.merge_perm_append _).mem_iff, List.mem_append]

/-- `R` holds of `l` and an `r` to the right of it in the order in which the test puts them. -/
def Decides (before : α → α → Bool) (R : α → α → Prop) (l r : α) : Prop :=
  (before r l = true → R r l) ∧ (before r l = false → R l r)

lemma head?_merge {ls rs : List α} {y : α} (h : y ∈ (merge before ls rs).head?) :
    y ∈ ls.head? ∨ y ∈ rs.head? := by
  rcases ls with _ | ⟨l, ls⟩
  · rw [merge_nil_left] at h
    exact Or.inr h
  rcases rs with _ | ⟨r, rs⟩
  · rw [merge_nil_right] at h
    exact Or.inl h
  rw [merge_cons_cons] at h
  split_ifs at h
  · exact Or.inr h
  · exact Or.inl h

lemma isChain_merge {ls rs : List α} (hl : ls.IsChain R) (hr : rs.IsChain R)
    (h : ∀ l ∈ ls, ∀ r ∈ rs, Decides before R l r) : (merge before ls rs).IsChain R := by
  induction ls generalizing rs with
  | nil => rwa [merge_nil_left]
  | cons l ls ihl =>
    induction rs with
    | nil => rwa [merge_nil_right]
    | cons r rs ihr =>
      obtain ⟨htrue, hfalse⟩ := h l List.mem_cons_self r List.mem_cons_self
      rw [merge_cons_cons]
      by_cases hb : before r l = true
      · -- `r` goes first, and before `l` or before the item that followed it
        rw [if_pos hb]
        refine (ihr hr.tail fun l' hl' r' hr' =>
          h l' hl' r' (List.mem_cons_of_mem _ hr')).cons fun y hy => ?_
        rcases head?_merge hy with hy | hy
        · obtain rfl : l = y := by simpa using hy
          exact htrue hb
        · exact hr.rel_head? hy
      · -- `l` goes first, and before the item that followed it or before `r`
        rw [if_neg hb]
        refine (ihl hl.tail hr fun l' hl' r' hr' =>
          h l' (List.mem_cons_of_mem _ hl') r' hr').cons fun y hy => ?_
        rcases head?_merge hy with hy | hy
        · exact hl.rel_head? hy
        · obtain rfl : r = y := by simpa using hy
          exact hfalse (Bool.eq_false_iff.mpr hb)

end MergeSort

open MergeSort

lemma mergeSort_singleton (x : α) : mergeSort before [x] = [x] := by
  rw [mergeSort, if_neg (by simp)]

lemma mergeSort_pair (x y : α) : mergeSort before [x, y] = merge before [x] [y] := by
  have hleft : firstHalf [x, y] = [x] := by simp [firstHalf]
  have hright : secondHalf [x, y] = [y] := by simp [secondHalf]
  rw [mergeSort, if_pos (by simp), hleft, hright, mergeSort_singleton, mergeSort_singleton]

lemma mergeSort_triple (x y z : α) :
    mergeSort before [x, y, z] = merge before [x] (merge before [y] [z]) := by
  have hleft : firstHalf [x, y, z] = [x] := by simp [firstHalf]
  have hright : secondHalf [x, y, z] = [y, z] := by simp [secondHalf]
  rw [mergeSort, if_pos (by simp), hleft, hright, mergeSort_singleton, mergeSort_pair]

/-- Items that never have to go before an earlier one stay as they are. -/
theorem mergeSort_eq_self {xs : List α} (h : xs.Pairwise fun x y => before y x = false) :
    mergeSort before xs = xs := by
  fun_induction mergeSort before xs with
  | case1 xs hlen ih₁ ih₂ =>
    have hparts := h
    rw [← firstHalf_append_secondHalf xs, List.pairwise_append] at hparts
    obtain ⟨h₁, h₂, hcross⟩ := hparts
    have hle : ∀ l r, l ∈ firstHalf xs → r ∈ secondHalf xs → (!before r l) = true := by
      intro l r hl hr
      rw [hcross l hl r hr]
      rfl
    rw [ih₁ h₁, ih₂ h₂, merge, List.merge_of_le hle, firstHalf_append_secondHalf]
  | case2 xs hlen => rfl

/-- Sorting what stands for some items sorts the items. -/
theorem mergeSort_map {β : Type} (f : β → α) (ys : List β) :
    mergeSort before (ys.map f) = (mergeSort (fun y z => before (f y) (f z)) ys).map f := by
  fun_induction mergeSort (fun y z => before (f y) (f z)) ys with
  | case1 ys hlen ih₁ ih₂ =>
    have hfirst : firstHalf (ys.map f) = (firstHalf ys).map f := by
      rw [firstHalf, firstHalf, List.length_map, List.map_take]
    have hsecond : secondHalf (ys.map f) = (secondHalf ys).map f := by
      rw [secondHalf, secondHalf, List.length_map, List.map_drop]
    rw [mergeSort, if_pos (by rwa [List.length_map]), hfirst, hsecond, ih₁, ih₂]
    refine (List.map_merge ?_).symm
    exact fun _ _ _ _ => rfl
  | case2 ys hlen => rw [mergeSort, if_neg (by rwa [List.length_map])]

/-- **Neighbours are decided by the test**: a relation that holds of any two items in the order
in which the test puts them holds of any two neighbours in the sorted list. -/
theorem isChain_mergeSort {xs : List α} (h : xs.Pairwise (Decides before R)) :
    (mergeSort before xs).IsChain R := by
  fun_induction mergeSort before xs with
  | case1 xs hlen ih₁ ih₂ =>
    rw [← firstHalf_append_secondHalf xs, List.pairwise_append] at h
    obtain ⟨h₁, h₂, hcross⟩ := h
    refine isChain_merge (ih₁ h₁) (ih₂ h₂) fun l hl r hr => hcross l ?_ r ?_
    · exact (mergeSort_perm before _).mem_iff.mp hl
    · exact (mergeSort_perm before _).mem_iff.mp hr
  | case2 xs hlen =>
    rcases xs with _ | ⟨x, _ | ⟨y, xs⟩⟩
    · exact .nil
    · exact .singleton x
    · simp at hlen

end RuleOrder
