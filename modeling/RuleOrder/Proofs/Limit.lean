import RuleOrder.Graph.Call
import RuleOrder.Proofs.Search

/-!
What the limit of a search does.

Two searches that differ in their limits look at the same nodes in the same order, and the one
with the lower limit stops earlier. Where it had an answer by then, the other has the same one.
It had none only if it left nodes unseen, and no node lies as deep as there are ids, so a limit
of as many steps as there are ids leaves none.
-/

namespace RuleOrder

namespace Table

variable {t : Table} {limit limit' : UInt64} {a b : String} {avoiding : List String}

lemma Depth.exists_le {n : String} {j k : ℕ} (h : t.Depth a b avoiding n k) (hj : 1 ≤ j)
    (hjk : j ≤ k) : ∃ m, t.Depth a b avoiding m j := by
  obtain ⟨m, hm⟩ := (depth_iff.mp h).2.exists_le hjk
  exact ⟨m, depth_iff.mpr ⟨hj, hm⟩⟩

lemma Depth.le_length_ids {n : String} {k : ℕ} (h : t.Depth a b avoiding n k) :
    k ≤ t.ids.length :=
  (depth_iff.mp h).2.le_length fun _ _ => mem_ids_of_mem_successors

/-- **A higher limit keeps every answer**, a level one as well as the others. -/
theorem Compares.of_le {r : Relation} (hle : limit ≤ limit')
    (h : t.Compares limit a b avoiding (.ok r)) : t.Compares limit' a b avoiding (.ok r) := by
  rw [UInt64.le_iff_toNat_le] at hle
  cases h with
  | direct hr => exact .direct hr
  | unknown h hid => exact .unknown h hid
  | via h ha hb hn hk hr => exact .via h ha hb hn (Nat.le_trans hk hle) hr
  | unrelated h ha hb hno hd =>
    -- no node lies just beyond the lower limit, and so none lies further out
    have hdepth : ∀ n k, t.Depth a b avoiding n k → k ≤ limit.toNat := by
      intro n k hn
      by_contra hlt
      exact hd (hn.exists_le (by omega) (by omega))
    refine .unrelated h ha hb (fun n k hn _ => hno n k hn (hdepth n k hn)) ?_
    rintro ⟨n, hn⟩
    have := hdepth n _ hn
    omega

/-- **A limit of as many steps as there are ids** leaves no search undecided. -/
theorem not_compares_error {fault : Fault} (h : t.ids.length ≤ limit.toNat) :
    ¬t.Compares limit a b avoiding (.error fault) := by
  intro herror
  cases herror with
  | undecided _ _ _ _ hd =>
    obtain ⟨n, hn⟩ := hd
    have := hn.le_length_ids
    omega

end Table

namespace Graph

variable {ν : Type}

/-- The same graph with another limit to its searches. -/
def withLimit (g : Graph ν) (limit : UInt64) : Graph ν := { g with maxDepth := limit }

variable {g : Graph ν} {limit limit' : UInt64} {a b : String} {avoiding : List String}

lemma tryCompareAvoiding_withLimit_iff {x : Except Fault Relation} :
    (g.withLimit limit).tryCompareAvoiding a b avoiding = x ↔
      g.table.Compares limit a b avoiding x :=
  Table.tryCompareAvoiding_eq_iff_compares

lemma compareAvoiding_eq_or (g : Graph ν) (a b : String) (avoiding : List String) :
    g.tryCompareAvoiding a b avoiding = .ok (g.compareAvoiding a b avoiding) ∨
    (∃ fault, g.tryCompareAvoiding a b avoiding = .error fault) ∧
      g.compareAvoiding a b avoiding = .equal := by
  unfold tryCompareAvoiding compareAvoiding Table.tryCompareAvoiding Table.compareAvoiding
  cases g.table.search g.maxDepth a b avoiding with
  | undecided => exact Or.inr ⟨⟨_, rfl⟩, rfl⟩
  | direct | via | unrelated => exact Or.inl rfl

lemma tryCompareAvoiding_of_le {r : Relation} (hle : limit ≤ limit')
    (h : (g.withLimit limit).tryCompareAvoiding a b avoiding = .ok r) :
    (g.withLimit limit').tryCompareAvoiding a b avoiding = .ok r := by
  rw [tryCompareAvoiding_withLimit_iff] at h ⊢
  exact h.of_le hle

lemma tryCompareAvoiding_of_length_le (h : g.table.ids.length ≤ limit.toNat) :
    (g.withLimit limit).tryCompareAvoiding a b avoiding =
      .ok ((g.withLimit limit).compareAvoiding a b avoiding) := by
  rcases (g.withLimit limit).compareAvoiding_eq_or a b avoiding with hok | ⟨⟨fault, herror⟩, -⟩
  · exact hok
  · exact absurd (tryCompareAvoiding_withLimit_iff.mp herror) (Table.not_compares_error h)

/-- **A limit withholds answers and never changes one**: what is answered under one limit is
answered alike under any higher one, a limit of as many steps as there are ids leaves nothing
undecided, and under any limit the lenient comparison gives the answer that it gives under such
a limit, or is level. -/
theorem compare_of_limit (g : Graph ν) (limit : UInt64) (a b : String)
    (avoiding : List String) :
    (∀ limit' r, limit ≤ limit' →
      (g.withLimit limit).tryCompareAvoiding a b avoiding = .ok r →
        (g.withLimit limit').tryCompareAvoiding a b avoiding = .ok r) ∧
    (g.table.ids.length ≤ limit.toNat →
      ∃ r, (g.withLimit limit).tryCompareAvoiding a b avoiding = .ok r) ∧
    ∀ limit', g.table.ids.length ≤ limit'.toNat →
      (g.withLimit limit).compareAvoiding a b avoiding =
          (g.withLimit limit').compareAvoiding a b avoiding ∨
        (g.withLimit limit).compareAvoiding a b avoiding = .equal := by
  refine ⟨fun limit' r hle h => tryCompareAvoiding_of_le hle h,
    fun h => ⟨_, tryCompareAvoiding_of_length_le h⟩, fun limit' hall => ?_⟩
  have hfull : (g.withLimit limit').tryCompareAvoiding a b avoiding =
      .ok ((g.withLimit limit').compareAvoiding a b avoiding) :=
    tryCompareAvoiding_of_length_le hall
  rcases (g.withLimit limit).compareAvoiding_eq_or a b avoiding with hok | ⟨-, hlevel⟩
  · -- both comparisons answer, so the one with the higher limit answers like the other
    left
    rcases UInt64.le_total limit limit' with hle | hle
    · have h := tryCompareAvoiding_of_le hle hok
      rw [hfull, Except.ok.injEq] at h
      exact h.symm
    · have h := tryCompareAvoiding_of_le hle hfull
      rwa [hok, Except.ok.injEq] at h
  · exact Or.inr hlevel

/-- Three steps from `a` to `d`, and ids beyond. -/
def threeSteps : Graph String :=
  (ofNodes []).run [.record ⟨"a", .less, "b"⟩, .record ⟨"b", .less, "c"⟩,
    .record ⟨"c", .less, "d"⟩, .record ⟨"b", .less, "e"⟩]

/-- The answer is found two steps on, and a lower limit withholds it. -/
theorem compare_of_threeSteps :
    (threeSteps.withLimit 1).tryCompareAvoiding "a" "d" [] =
      .error (.searchTooDeep "a" "d" 1) ∧
    (threeSteps.withLimit 1).compareAvoiding "a" "d" [] = .equal ∧
    (threeSteps.withLimit 2).tryCompareAvoiding "a" "d" [] = .ok .less ∧
    (threeSteps.withLimit 64).tryCompareAvoiding "a" "d" [] = .ok .less ∧
    (threeSteps.withLimit 3).tryCompareAvoiding "a" "d" ["b"] = .ok .equal := by
  have hfound : (threeSteps.withLimit 2).tryCompareAvoiding "a" "d" [] = .ok .less := by decide
  exact ⟨by decide, by decide, hfound,
    (compare_of_limit threeSteps 2 "a" "d" []).1 64 .less (by decide) hfound, by decide⟩

end Graph

end RuleOrder
