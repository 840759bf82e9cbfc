import RuleOrder.Proofs.Merge

/-!
Merge sort by a test that sees one step.

Each item has a rank, and the test puts an item before an earlier one just when it ranks one
step above it. Of two items further apart the test says nothing, so the items come out from the
highest rank to the lowest only if no merge has to carry an item over more than one step at a
time. Whether it has to can be read off the parts into which the sort cuts the list.
-/

namespace RuleOrder

variable {α : Type} {before : α → α → Bool} {rank : α → ℕ}

namespace MergeSort

/-! ### The cuts of a sort -/

/-- The sort of a list cuts it, or one of its parts in turn, into `ls` and `rs`. -/
inductive Cut : List α → List α → List α → Prop
  | whole {xs : List α} (h : 2 ≤ xs.length) : Cut xs (firstHalf xs) (secondHalf xs)
  | first {xs ls rs : List α} (h : 2 ≤ xs.length) (hc : Cut (firstHalf xs) ls rs) : Cut xs ls rs
  | second {xs ls rs : List α} (h : 2 ≤ xs.length) (hc : Cut (secondHalf xs) ls rs) :
    Cut xs ls rs

lemma Cut.two_le_length {xs ls rs : List α} (h : Cut xs ls rs) : 2 ≤ xs.length := by
  cases h with
  | whole h | first h | second h => exact h

lemma Cut.append_infix {xs ls rs : List α} (h : Cut xs ls rs) : ls ++ rs <:+: xs := by
  induction h with
  | @whole xs =>
    refine ⟨[], [], ?_⟩
    rw [List.nil_append, List.append_nil, firstHalf_append_secondHalf]
  | first _ _ ih => exact ih.trans (List.take_prefix ..).isInfix
  | second _ _ ih => exact ih.trans (List.drop_suffix ..).isInfix

lemma forall_cut_iff {P : List α → List α → Prop} {xs : List α} (h : 2 ≤ xs.length) :
    (∀ ls rs, Cut xs ls rs → P ls rs) ↔
      (∀ ls rs, Cut (firstHalf xs) ls rs → P ls rs) ∧
        (∀ ls rs, Cut (secondHalf xs) ls rs → P ls rs) ∧ P (firstHalf xs) (secondHalf xs) := by
  constructor
  · intro hall
    exact ⟨fun ls rs hc => hall ls rs (.first h hc), fun ls rs hc => hall ls rs (.second h hc),
      hall _ _ (.whole h)⟩
  · rintro ⟨hfirst, hsecond, hwhole⟩ ls rs hc
    cases hc with
    | whole => exact hwhole
    | first _ hc => exact hfirst ls rs hc
    | second _ hc => exact hsecond ls rs hc

/-! ### One merge -/

def Descends (rank : α → ℕ) (xs : List α) : Prop := xs.Pairwise fun x y => rank y < rank x

/-- What ranks in `rs` above an item of `ls` ranks one step above some item of `ls`. -/
def Stepped (rank : α → ℕ) (ls rs : List α) : Prop :=
  ∀ l ∈ ls, ∀ r ∈ rs, rank l < rank r → ∃ m ∈ ls, rank r = rank m + 1

/-- The test puts an `r` to the right of `l` before it just when it is one step above it. -/
def SeesStep (before : α → α → Bool) (rank : α → ℕ) (l r : α) : Prop :=
  rank r ≠ rank l ∧ (before r l = true ↔ rank r = rank l + 1)

lemma descends_cons {x : α} {xs : List α} :
    Descends rank (x :: xs) ↔ (∀ y ∈ xs, rank y < rank x) ∧ Descends rank xs :=
  List.pairwise_cons

lemma Stepped.congr {ls ls' rs rs' : List α} (hl : ls'.Perm ls) (hr : rs'.Perm rs) :
    Stepped rank ls' rs' ↔ Stepped rank ls rs := by
  simp only [Stepped, hl.mem_iff, hr.mem_iff]

lemma descends_cons_of_step {l r : α} {ls rs ms : List α} (hstep : rank r = rank l + 1)
    (hmem : ∀ x, x ∈ ms ↔ x ∈ l :: ls ∨ x ∈ rs)
    (hms : Descends rank ms ↔
      Descends rank (l :: ls) ∧ Descends rank rs ∧ Stepped rank (l :: ls) rs) :
    Descends rank (r :: ms) ↔
      Descends rank (l :: ls) ∧ Descends rank (r :: rs) ∧ Stepped rank (l :: ls) (r :: rs) := by
  rw [descends_cons, hms, descends_cons (x := r)]
  constructor
  · rintro ⟨htop, hls, hrs, hsteps⟩
    refine ⟨hls, ⟨fun y hy => htop y ((hmem y).mpr (Or.inr hy)), hrs⟩, fun l' hl' r' hr' hlt => ?_⟩
    rcases List.mem_cons.mp hr' with rfl | hr'
    · exact ⟨l, List.mem_cons_self, hstep⟩
    · exact hsteps l' hl' r' hr' hlt
  · rintro ⟨hls, ⟨htop, hrs⟩, hsteps⟩
    refine ⟨fun x hx => ?_, hls, hrs, fun l' hl' r' hr' =>
      hsteps l' hl' r' (List.mem_cons_of_mem r hr')⟩
    rcases (hmem x).mp hx with hx | hx
    · rcases List.mem_cons.mp hx with rfl | hx
      · omega
      · have hlt : rank x < rank l := (descends_cons.mp hls).1 x hx
        omega
    · exact htop x hx

lemma descends_cons_of_not_step {l r : α} {ls rs ms : List α} (hne : rank r ≠ rank l)
    (hstep : rank r ≠ rank l + 1) (hmem : ∀ x, x ∈ ms ↔ x ∈ ls ∨ x ∈ r :: rs)
    (hms : Descends rank ms ↔
      Descends rank ls ∧ Descends rank (r :: rs) ∧ Stepped rank ls (r :: rs)) :
    Descends rank (l :: ms) ↔
      Descends rank (l :: ls) ∧ Descends rank (r :: rs) ∧ Stepped rank (l :: ls) (r :: rs) := by
  rw [descends_cons, hms, descends_cons (x := l)]
  constructor
  · rintro ⟨htop, hls, hrs, hsteps⟩
    refine ⟨⟨fun y hy => htop y ((hmem y).mpr (Or.inl hy)), hls⟩, hrs, fun l' hl' r' hr' hlt => ?_⟩
    have htop' : rank r' < rank l := htop r' ((hmem r').mpr (Or.inr hr'))
    rcases List.mem_cons.mp hl' with rfl | hl'
    · omega
    · obtain ⟨m, hm, hr'm⟩ := hsteps l' hl' r' hr' hlt
      exact ⟨m, List.mem_cons_of_mem l hm, hr'm⟩
  · rintro ⟨⟨htop, hls⟩, hrs, hsteps⟩
    -- an item of `ls` one step below `r` would rank between `r` and `l`
    have hrl : rank r < rank l := by
      by_contra hge
      obtain ⟨m, hm, hrm⟩ :=
        hsteps l List.mem_cons_self r List.mem_cons_self (by omega)
      rcases List.mem_cons.mp hm with rfl | hm
      · exact hstep hrm
      · have hlt := htop m hm
        omega
    have htop' : ∀ x ∈ r :: rs, rank x < rank l := fun x hx => by
      rcases List.mem_cons.mp hx with rfl | hx
      · exact hrl
      · exact ((descends_cons.mp hrs).1 x hx).trans hrl
    refine ⟨fun x hx => ((hmem x).mp hx).elim (htop x) (htop' x), hls, hrs,
      fun l' hl' r' hr' hlt => ?_⟩
    obtain ⟨m, hm, hrm⟩ := hsteps l' (List.mem_cons_of_mem l hl') r' hr' hlt
    rcases List.mem_cons.mp hm with rfl | hm
    · have hlt' := htop' r' hr'
      omega
    · exact ⟨m, hm, hrm⟩

/-- **When a merge descends**: when both parts do and no item has to be carried over more than
one step. -/
theorem descends_merge_iff {ls rs : List α} (h : ∀ l ∈ ls, ∀ r ∈ rs, SeesStep before rank l r) :
    Descends rank (merge before ls rs) ↔
      Descends rank ls ∧ Descends rank rs ∧ Stepped rank ls rs := by
  induction ls generalizing rs with
  | nil => simp [merge_nil_left, Descends, Stepped]
  | cons l ls ihl =>
    induction rs with
    | nil => simp [merge_nil_right, Descends, Stepped]
    | cons r rs ihr =>
      obtain ⟨hne, hbefore⟩ := h l List.mem_cons_self r List.mem_cons_self
      rw [merge_cons_cons]
      by_cases hb : before r l = true
      · rw [if_pos hb]
        exact descends_cons_of_step (hbefore.mp hb) (fun x => mem_merge)
          (ihr fun l' hl' r' hr' => h l' hl' r' (List.mem_cons_of_mem r hr'))
      · rw [if_neg hb]
        exact descends_cons_of_not_step hne (fun hr => hb (hbefore.mpr hr)) (fun x => mem_merge)
          (ihl fun l' hl' r' hr' => h l' (List.mem_cons_of_mem l hl') r' hr')

end MergeSort

open MergeSort

/-- **When a sort descends**: when at each cut no item has to be carried over more than one
step. -/
theorem descends_mergeSort_iff {xs : List α} (h : xs.Pairwise (SeesStep before rank)) :
    Descends rank (mergeSort before xs) ↔ ∀ ls rs, Cut xs ls rs → Stepped rank ls rs := by
  fun_induction mergeSort before xs with
  | case1 xs hlen ih₁ ih₂ =>
    rw [← firstHalf_append_secondHalf xs, List.pairwise_append] at h
    obtain ⟨h₁, h₂, hcross⟩ := h
    have hsees : ∀ l ∈ mergeSort before (firstHalf xs), ∀ r ∈ mergeSort before (secondHalf xs),
        SeesStep before rank l r := fun l hl r hr =>
      hcross l ((mergeSort_perm before _).mem_iff.mp hl) r
        ((mergeSort_perm before _).mem_iff.mp hr)
    rw [descends_merge_iff hsees, ih₁ h₁, ih₂ h₂, forall_cut_iff hlen,
      Stepped.congr (mergeSort_perm before _) (mergeSort_perm before _)]
  | case2 xs hlen =>
    have hshort : Descends rank xs := by
      rcases xs with _ | ⟨x, _ | ⟨y, xs⟩⟩
      · exact .nil
      · exact List.pairwise_singleton _ x
      · simp at hlen
    exact ⟨fun _ ls rs hc => absurd hc.two_le_length hlen, fun _ => hshort⟩

end RuleOrder
