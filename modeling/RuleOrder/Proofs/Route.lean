import Mathlib.Data.List.Perm.Subperm
import Mathlib.Data.Nat.Find
import Mathlib.Logic.Relation
import Mathlib.Tactic.Common
import RuleOrder.Walk

/-!
Routes along a successor function.

A route is told by the nodes it passes, none of them barred. The depth of a node is the length
of the shortest routes to it. Routes of one length are compared by the places of their steps,
the earliest step first.
-/

namespace RuleOrder.Walk

variable {α : Type}

/-- From `a` through the nodes of a list in turn, none of them barred, to the last of them. -/
inductive Route (next : α → List α) (barred : List α) (a : α) : List α → α → Prop
  | start : Route next barred a [] a
  | step {p : List α} {u v : α} (h : Route next barred a p u) (hv : v ∈ next u)
      (hb : v ∉ barred) : Route next barred a (p ++ [v]) v

/-- A route of `k` steps leads to `n`, and no shorter one does. -/
structure AtDepth (next : α → List α) (barred : List α) (a n : α) (k : ℕ) : Prop where
  reached : ∃ p, Route next barred a p n ∧ p.length = k
  least : ∀ p, Route next barred a p n → k ≤ p.length

/-- The places of the steps of a route from `u`, where `pos u v` is the place of a step. -/
def placing (pos : α → α → ℕ) : α → List α → List ℕ
  | _, [] => []
  | u, v :: p => pos u v :: placing pos v p

variable {next : α → List α} {barred : List α} {a : α}

/-! ### Routes -/

lemma Route.eq_or_mem {p : List α} {n : α} (h : Route next barred a p n) :
    p = [] ∧ n = a ∨ n ∈ p := by
  cases h with
  | start => exact Or.inl ⟨rfl, rfl⟩
  | step => exact Or.inr (by simp)

lemma Route.reflTransGen {p : List α} {n : α} (h : Route next barred a p n) :
    Relation.ReflTransGen (fun u v => v ∈ next u) a n := by
  induction h with
  | start => exact .refl
  | step _ hv _ ih => exact ih.tail hv

lemma Route.exists_last {p : List α} {n : α} (h : Route next barred a p n) (hp : p ≠ []) :
    ∃ q u, Route next barred a q u ∧ n ∈ next u ∧ n ∉ barred ∧ p = q ++ [n] := by
  cases h with
  | start => exact absurd rfl hp
  | step h hv hb => exact ⟨_, _, h, hv, hb, rfl⟩

lemma exists_route {n : α} (h : Relation.ReflTransGen (fun u v => v ∈ next u) a n) :
    ∃ p, Route next [a] a p n := by
  classical
  induction h with
  | refl => exact ⟨[], .start⟩
  | @tail u v _ hv ih =>
    obtain ⟨p, hp⟩ := ih
    by_cases hva : v = a
    · exact ⟨[], hva ▸ .start⟩
    · exact ⟨p ++ [v], hp.step hv (by simpa using hva)⟩

/-! ### Depth -/

lemma AtDepth.unique {n : α} {j k : ℕ} (hj : AtDepth next barred a n j)
    (hk : AtDepth next barred a n k) : j = k := by
  obtain ⟨p, hp, rfl⟩ := hj.reached
  obtain ⟨q, hq, rfl⟩ := hk.reached
  exact Nat.le_antisymm (hj.least q hq) (hk.least p hp)

lemma Route.exists_atDepth {p : List α} {n : α} (h : Route next barred a p n) :
    ∃ k ≤ p.length, AtDepth next barred a n k := by
  classical
  have hex : ∃ k, ∃ q, Route next barred a q n ∧ q.length = k := ⟨_, p, h, rfl⟩
  exact ⟨Nat.find hex, Nat.find_min' hex ⟨p, h, rfl⟩, Nat.find_spec hex,
    fun q hq => Nat.find_min' hex ⟨q, hq, rfl⟩⟩

lemma atDepth_zero_iff {n : α} : AtDepth next barred a n 0 ↔ n = a := by
  constructor
  · rintro ⟨⟨p, hp, h0⟩, -⟩
    rw [List.length_eq_zero_iff] at h0
    subst h0
    rcases hp.eq_or_mem with ⟨-, h⟩ | h
    · exact h
    · simp at h
  · rintro rfl
    exact ⟨⟨[], .start, rfl⟩, fun _ _ => Nat.zero_le _⟩

lemma AtDepth.of_step {q : List α} {u v : α} {k : ℕ} (hv : AtDepth next barred a v (k + 1))
    (hq : Route next barred a q u) (hlen : q.length = k) (h : v ∈ next u) (hb : v ∉ barred) :
    AtDepth next barred a u k := by
  refine ⟨⟨q, hq, hlen⟩, fun p hp => ?_⟩
  have := hv.least _ (hp.step h hb)
  simp only [List.length_append, List.length_singleton] at this
  omega

lemma AtDepth.exists_pred {v : α} {k : ℕ} (hv : AtDepth next barred a v (k + 1)) :
    ∃ u, AtDepth next barred a u k ∧ v ∈ next u ∧ v ∉ barred := by
  obtain ⟨p, hp, hlen⟩ := hv.reached
  obtain ⟨q, u, hq, hvu, hb, rfl⟩ := hp.exists_last (by rintro rfl; simp at hlen)
  exact ⟨u, hv.of_step hq (by simpa using hlen) hvu hb, hvu, hb⟩

lemma AtDepth.succ {u v : α} {k : ℕ} (hu : AtDepth next barred a u k) (h : v ∈ next u)
    (hb : v ∉ barred) (hnew : ∀ j ≤ k, ¬AtDepth next barred a v j) :
    AtDepth next barred a v (k + 1) := by
  obtain ⟨q, hq, hlen⟩ := hu.reached
  refine ⟨⟨q ++ [v], hq.step h hb, by simp [hlen]⟩, fun p hp => ?_⟩
  obtain ⟨j, hj, hd⟩ := hp.exists_atDepth
  by_contra hlt
  exact hnew j (by omega) hd

/-- Each step of a shortest route leaves from a node of its own, and so a list of all nodes
that have successors bounds the depth. -/
lemma AtDepth.le_length {n : α} {k : ℕ} (h : AtDepth next barred a n k) {ids : List α}
    (hids : ∀ u v, v ∈ next u → u ∈ ids) : k ≤ ids.length := by
  suffices H : ∀ k n, AtDepth next barred a n k → ∃ us : List α, us.Nodup ∧ us.length = k ∧
      ∀ u ∈ us, u ∈ ids ∧ ∃ j < k, AtDepth next barred a u j by
    obtain ⟨us, hnd, rfl, hus⟩ := H k n h
    exact (hnd.subperm fun u hu => (hus u hu).1).length_le
  intro k
  induction k with
  | zero => exact fun n _ => ⟨[], by simp⟩
  | succ k ih =>
    intro n hn
    obtain ⟨u, hu, hnu, -⟩ := hn.exists_pred
    obtain ⟨us, hnd, hlen, hus⟩ := ih u hu
    refine ⟨u :: us, List.nodup_cons.mpr ⟨fun hmem => ?_, hnd⟩, by simp [hlen], ?_⟩
    · obtain ⟨-, j, hj, hd⟩ := hus u hmem
      have := hd.unique hu
      omega
    · intro w hw
      rcases List.mem_cons.mp hw with rfl | hw
      · exact ⟨hids _ _ hnu, k, by omega, hu⟩
      · obtain ⟨h1, j, hj, hd⟩ := hus w hw
        exact ⟨h1, j, by omega, hd⟩

/-! ### The order of routes -/

lemma placing_append (pos : α → α → ℕ) (u v : α) (p q : List α) :
    placing pos u (p ++ v :: q) = placing pos u (p ++ [v]) ++ placing pos v q := by
  induction p generalizing u with
  | nil => simp [placing]
  | cons w p ih => simp [placing, ih]

lemma length_placing (pos : α → α → ℕ) (u : α) (p : List α) :
    (placing pos u p).length = p.length := by
  induction p generalizing u with
  | nil => rfl
  | cons w p ih => simp [placing, ih]

lemma Route.placing_snoc {p : List α} {u : α} (h : Route next barred a p u)
    (pos : α → α → ℕ) (v : α) :
    placing pos a (p ++ [v]) = placing pos a p ++ [pos u v] := by
  cases h with
  | start => simp [placing]
  | step => simpa [placing] using placing_append pos a _ _ [v]

lemma lex_append_left (s : List ℕ) {i j : ℕ} (h : i < j) :
    List.Lex (· < ·) (s ++ [i]) (s ++ [j]) := by
  induction s with
  | nil => exact .rel h
  | cons x s ih => exact .cons ih

lemma lex_append {s s' : List ℕ} (hlen : s.length = s'.length) (h : List.Lex (· < ·) s s')
    (r r' : List ℕ) : List.Lex (· < ·) (s ++ r) (s' ++ r') := by
  induction h with
  | nil => simp at hlen
  | cons _ ih => exact .cons (ih (by simpa using hlen))
  | rel h => exact .rel h

lemma exists_not_lex {k : ℕ} {P : List ℕ → Prop} (h : ∃ s, P s ∧ s.length = k) :
    ∃ s, P s ∧ s.length = k ∧ ∀ s', P s' → s'.length = k → ¬List.Lex (· < ·) s' s := by
  classical
  induction k generalizing P with
  | zero =>
    obtain ⟨s, hs, hlen⟩ := h
    rw [List.length_eq_zero_iff] at hlen
    subst hlen
    exact ⟨[], hs, rfl, fun s' _ _ => List.not_lex_nil⟩
  | succ k ih =>
    -- the least first entry, and then the first of the rests that it can have
    have hex : ∃ i s, P (i :: s) ∧ s.length = k := by
      obtain ⟨s, hs, hlen⟩ := h
      rcases s with _ | ⟨i, s⟩
      · simp at hlen
      · exact ⟨i, s, hs, by simpa using hlen⟩
    obtain ⟨s, hs, hlen, hfirst⟩ := ih (Nat.find_spec hex)
    refine ⟨Nat.find hex :: s, hs, by simp [hlen], fun s' hs' hlen' hlex => ?_⟩
    rcases s' with _ | ⟨j, s'⟩
    · simp at hlen'
    · have hlen'' : s'.length = k := by simpa using hlen'
      have hj : Nat.find hex ≤ j := Nat.find_min' hex ⟨s', hs', hlen''⟩
      cases hlex with
      | cons hlex => exact hfirst s' hs' hlen'' hlex
      | rel hlt => omega

lemma exists_first_route (pos : α → α → ℕ) {n : α} {k : ℕ}
    (h : ∃ p, Route next barred a p n ∧ p.length = k) :
    ∃ p, Route next barred a p n ∧ p.length = k ∧
      ∀ q, Route next barred a q n → q.length = k →
        ¬List.Lex (· < ·) (placing pos a q) (placing pos a p) := by
  obtain ⟨p₀, hp₀, hlen₀⟩ := h
  obtain ⟨_, ⟨p, hp, rfl⟩, hlen, hfirst⟩ := exists_not_lex
    (P := fun s => ∃ p, Route next barred a p n ∧ placing pos a p = s)
    ⟨_, ⟨p₀, hp₀, rfl⟩, (length_placing pos a p₀).trans hlen₀⟩
  refine ⟨p, hp, (length_placing pos a p).symm.trans hlen, fun q hq hqlen => ?_⟩
  exact hfirst _ ⟨q, hq, rfl⟩ ((length_placing pos a q).trans hqlen)

end RuleOrder.Walk
