import Mathlib.Order.Lattice
import RuleOrder.Proofs.Merge

/-!
Merge sort by a test that ranks.

Where each item has a rank, and of two items of different ranks the test puts the lower one
first, the items come out by rank. It does not matter what the test says of items of one rank
otherwise, but where it puts none of a rank before another they keep the order in which they
came. Nothing is asked of the test for items that the list does not hold.
-/

namespace RuleOrder

variable {α β : Type} [LinearOrder β] {before : α → α → Bool} {rank : α → β} {xs ys : List α}
  {k : β}

namespace MergeSort

def Ascends (rank : α → β) (xs : List α) : Prop := xs.Pairwise fun x y => rank x ≤ rank y

/-- The items of rank `k`, in their order. -/
def ofRank (rank : α → β) (k : β) (xs : List α) : List α := xs.filter fun x => rank x = k

/-- Of the items of a list, the test puts one before another just when it ranks lower. -/
def Ranks (before : α → α → Bool) (rank : α → β) (xs : List α) : Prop :=
  ∀ x ∈ xs, ∀ y ∈ xs, before x y = true ↔ rank x < rank y

/-- Of two items of different ranks the test puts the lower one first. -/
def Grades (before : α → α → Bool) (rank : α → β) (xs : List α) : Prop :=
  ∀ x ∈ xs, ∀ y ∈ xs, rank x < rank y → before x y = true ∧ before y x = false

/-- The test puts no item of rank `k` before another of that rank. -/
def Levels (before : α → α → Bool) (rank : α → β) (k : β) (xs : List α) : Prop :=
  ∀ x ∈ xs, ∀ y ∈ xs, rank x = k → rank y = k → before x y = false

lemma Grades.mono (h : Grades before rank xs) (hsub : ys ⊆ xs) : Grades before rank ys :=
  fun x hx y hy => h x (hsub hx) y (hsub hy)

omit [LinearOrder β] in
lemma Levels.mono (h : Levels before rank k xs) (hsub : ys ⊆ xs) : Levels before rank k ys :=
  fun x hx y hy => h x (hsub hx) y (hsub hy)

lemma Grades.le (h : Grades before rank xs) {x y : α} (hx : x ∈ xs) (hy : y ∈ xs)
    (hb : before x y = true) : rank x ≤ rank y := by
  by_contra hlt
  have hno := (h y hy x hx (not_le.mp hlt)).2
  rw [hb] at hno
  cases hno

lemma Grades.ge (h : Grades before rank xs) {x y : α} (hx : x ∈ xs) (hy : y ∈ xs)
    (hb : before x y = false) : rank y ≤ rank x := by
  by_contra hlt
  have hyes := (h x hx y hy (not_le.mp hlt)).1
  rw [hb] at hyes
  cases hyes

lemma Ranks.grades (h : Ranks before rank xs) : Grades before rank xs := fun x hx y hy hlt =>
  ⟨(h x hx y hy).mpr hlt, Bool.eq_false_iff.mpr fun hb => hlt.not_gt ((h y hy x hx).mp hb)⟩

lemma Ranks.levels (h : Ranks before rank xs) (k : β) : Levels before rank k xs :=
  fun x hx y hy hxk hyk => Bool.eq_false_iff.mpr fun hb =>
    ((h x hx y hy).mp hb).ne (hxk.trans hyk.symm)

@[simp] lemma ofRank_nil : ofRank rank k [] = [] := rfl

lemma ofRank_cons (x : α) :
    ofRank rank k (x :: xs) = if rank x = k then x :: ofRank rank k xs else ofRank rank k xs := by
  simp [ofRank, List.filter_cons]

lemma ofRank_append : ofRank rank k (xs ++ ys) = ofRank rank k xs ++ ofRank rank k ys :=
  List.filter_append ..

lemma ofRank_eq_nil (h : ∀ x ∈ xs, k < rank x) : ofRank rank k xs = [] := by
  rw [ofRank, List.filter_eq_nil_iff]
  intro x hx hk
  exact (h x hx).ne' (of_decide_eq_true hk)

/-- In a merge the items of a rank stay in their order, those of the first part first, if none
of them goes ahead of any in the first part that ranks as low. -/
lemma ofRank_merge {ls rs : List α} (hls : Ascends rank ls)
    (h : ∀ l ∈ ls, ∀ r ∈ rs, rank r = k → before r l = true → k < rank l) :
    ofRank rank k (merge before ls rs) = ofRank rank k ls ++ ofRank rank k rs := by
  induction ls generalizing rs with
  | nil => rw [merge_nil_left, ofRank_nil, List.nil_append]
  | cons l ls ihl =>
    induction rs with
    | nil => rw [merge_nil_right, ofRank_nil, List.append_nil]
    | cons r rs ihr =>
      rw [merge_cons_cons]
      by_cases hb : before r l = true
      · have hmerge := ihr fun l' hl' r' hr' => h l' hl' r' (List.mem_cons_of_mem r hr')
        rw [if_pos hb, ofRank_cons, hmerge, ofRank_cons r]
        split_ifs with hk
        · -- `r` ranks below the whole first part, which has no item of its rank
          have hlow : k < rank l := h l List.mem_cons_self r List.mem_cons_self hk hb
          have hnone : ofRank rank k (l :: ls) = [] := by
            refine ofRank_eq_nil fun x hx => ?_
            rcases List.mem_cons.mp hx with rfl | hx
            · exact hlow
            · exact hlow.trans_le (List.rel_of_pairwise_cons hls hx)
          rw [hnone, List.nil_append, List.nil_append]
        · rfl
      · have hmerge := ihl hls.tail fun l' hl' => h l' (List.mem_cons_of_mem l hl')
        rw [if_neg hb, ofRank_cons, hmerge, ofRank_cons l]
        split_ifs <;> rfl

omit [LinearOrder β] in
lemma flatMap_of_eq_nil {f : β → List α} {l r : List β} (h : ∀ j ∈ l, f j = []) :
    (l ++ k :: r).flatMap f = f k ++ r.flatMap f := by
  rw [List.flatMap_append, List.flatMap_eq_nil_iff.mpr h, List.nil_append, List.flatMap_cons]

/-- A list that ascends is made up of its items of each rank, from the lowest rank on. -/
lemma Ascends.eq_flatMap_ofRank {ks : List β} (hks : ks.Pairwise (· < ·))
    (hmem : ∀ x ∈ xs, rank x ∈ ks) (h : Ascends rank xs) :
    xs = ks.flatMap fun k => ofRank rank k xs := by
  induction xs with
  | nil => simp
  | cons x xs ih =>
    obtain ⟨hfirst, htail⟩ := List.pairwise_cons.mp h
    have hrest := ih (fun y hy => hmem y (List.mem_cons_of_mem x hy)) htail
    obtain ⟨l, r, hlr⟩ := List.append_of_mem (hmem x List.mem_cons_self)
    rw [hlr, List.pairwise_append, List.pairwise_cons] at hks
    obtain ⟨-, ⟨habove, -⟩, hcross⟩ := hks
    have hbelow : ∀ k ∈ l, k < rank x := fun k hk => hcross k hk (rank x) List.mem_cons_self
    have hlow : ∀ k ∈ l, ofRank rank k xs = [] := fun k hk =>
      ofRank_eq_nil fun y hy => (hbelow k hk).trans_le (hfirst y hy)
    have hlow' : ∀ k ∈ l, ofRank rank k (x :: xs) = [] := fun k hk => by
      rw [ofRank_cons, if_neg (hbelow k hk).ne', hlow k hk]
    have hhigh : ∀ k ∈ r, ofRank rank k (x :: xs) = ofRank rank k xs := fun k hk => by
      rw [ofRank_cons, if_neg (habove k hk).ne]
    calc x :: xs
        = x :: ks.flatMap fun k => ofRank rank k xs := by rw [← hrest]
      _ = x :: (ofRank rank (rank x) xs ++ r.flatMap fun k => ofRank rank k xs) := by
        rw [hlr, flatMap_of_eq_nil hlow]
      _ = ofRank rank (rank x) (x :: xs) ++ r.flatMap fun k => ofRank rank k (x :: xs) := by
        rw [ofRank_cons, if_pos rfl, List.flatMap_congr hhigh, List.cons_append]
      _ = ks.flatMap fun k => ofRank rank k (x :: xs) := by
        rw [hlr, flatMap_of_eq_nil hlow']

end MergeSort

open MergeSort

/-- **The items come out by rank.** -/
theorem ascends_mergeSort (h : Grades before rank xs) : Ascends rank (mergeSort before xs) := by
  have hchain : (mergeSort before xs).IsChain fun x y => rank x ≤ rank y :=
    isChain_mergeSort (List.pairwise_of_forall_mem_list fun _ hx _ hy => ⟨h.le hy hx, h.ge hy hx⟩)
  have htrans : Trans (fun x y : α => rank x ≤ rank y) (fun x y => rank x ≤ rank y)
    fun x y => rank x ≤ rank y := ⟨le_trans⟩
  exact hchain.pairwise

/-- **Items of one rank stay in the order in which they came**, if the test lets them. -/
theorem ofRank_mergeSort (h : Grades before rank xs) (hk : Levels before rank k xs) :
    ofRank rank k (mergeSort before xs) = ofRank rank k xs := by
  fun_induction mergeSort before xs with
  | case1 xs hlen ih₁ ih₂ =>
    have hfirst : firstHalf xs ⊆ xs := List.take_subset ..
    have hsecond : secondHalf xs ⊆ xs := List.drop_subset ..
    have hcross : ∀ l ∈ mergeSort before (firstHalf xs), ∀ r ∈ mergeSort before (secondHalf xs),
        rank r = k → before r l = true → k < rank l := by
      intro l hl r hr hrk hb
      have hl' : l ∈ xs := hfirst ((mergeSort_perm before _).mem_iff.mp hl)
      have hr' : r ∈ xs := hsecond ((mergeSort_perm before _).mem_iff.mp hr)
      have hle : k ≤ rank l := hrk ▸ h.le hr' hl' hb
      refine hle.lt_of_ne fun hlk => ?_
      rw [hk r hr' l hl' hrk hlk.symm] at hb
      cases hb
    rw [ofRank_merge (ascends_mergeSort (h.mono hfirst)) hcross,
      ih₁ (h.mono hfirst) (hk.mono hfirst), ih₂ (h.mono hsecond) (hk.mono hsecond),
      ← ofRank_append, firstHalf_append_secondHalf]
  | case2 => rfl

/-- **A sort by ranks gathers the items of each rank**, from the lowest rank on, and leaves them
in the order in which they came. -/
theorem mergeSort_eq_flatMap_ofRank (h : Ranks before rank xs) {ks : List β}
    (hks : ks.Pairwise (· < ·)) (hmem : ∀ x ∈ xs, rank x ∈ ks) :
    mergeSort before xs = ks.flatMap fun k => ofRank rank k xs := by
  have hsorted : ∀ x ∈ mergeSort before xs, rank x ∈ ks := fun x hx =>
    hmem x ((mergeSort_perm before xs).mem_iff.mp hx)
  calc mergeSort before xs
      = ks.flatMap fun k => ofRank rank k (mergeSort before xs) :=
        (ascends_mergeSort h.grades).eq_flatMap_ofRank hks hsorted
    _ = ks.flatMap fun k => ofRank rank k xs :=
        List.flatMap_congr fun k _ => ofRank_mergeSort h.grades (h.levels k)

/-- **What is graded first comes first**: where the test puts the items with a mark before those
without and none of them before another, it leaves them in the order in which they came. -/
theorem mergeSort_eq_filter_append {p : α → Bool} (h : Grades before (fun x => !p x) xs)
    (hk : Levels before (fun x => !p x) false xs) :
    mergeSort before xs = xs.filter p ++ (mergeSort before xs).filter (fun x => !p x) := by
  have hmem : ∀ x ∈ mergeSort before xs, (!p x) ∈ [false, true] := fun x _ => by
    cases p x <;> decide
  have hmarked : ofRank (fun x => !p x) false xs = xs.filter p := by simp [ofRank]
  have hother : ofRank (fun x => !p x) true (mergeSort before xs) =
      (mergeSort before xs).filter fun x => !p x := by simp [ofRank]
  calc mergeSort before xs
      = [false, true].flatMap fun k => ofRank (fun x => !p x) k (mergeSort before xs) :=
        (ascends_mergeSort h).eq_flatMap_ofRank (by decide) hmem
    _ = ofRank (fun x => !p x) false (mergeSort before xs) ++
          ofRank (fun x => !p x) true (mergeSort before xs) := by
        rw [List.flatMap_cons, List.flatMap_singleton]
    _ = xs.filter p ++ (mergeSort before xs).filter (fun x => !p x) := by
        rw [ofRank_mergeSort h hk, hmarked, hother]

/-- **A sort by ranks is stable**: of any two items the one that ranks lower comes first, and of
two of one rank the one that came first. -/
theorem pairwise_mergeSort (h : Ranks before rank xs) {R : α → α → Prop} (hR : xs.Pairwise R) :
    (mergeSort before xs).Pairwise fun x y => rank x < rank y ∨ rank x = rank y ∧ R x y := by
  have hascends := ascends_mergeSort h.grades
  rw [List.pairwise_iff_forall_sublist]
  intro x y hxy
  have hpair : Ascends rank [x, y] := List.Pairwise.sublist hxy hascends
  rcases (List.pairwise_pair.mp hpair).lt_or_eq with hlt | heq
  · exact Or.inl hlt
  · -- the two stand in the part of their rank, which is that of the list as it came
    have hpart : [x, y].Sublist (ofRank rank (rank y) xs) := by
      rw [← ofRank_mergeSort h.grades (h.levels _)]
      have hfilter := hxy.filter fun z => rank z = rank y
      simpa [ofRank, heq] using hfilter
    exact Or.inr ⟨heq, List.pairwise_iff_forall_sublist.mp hR (hpart.trans List.filter_sublist)⟩

end RuleOrder
