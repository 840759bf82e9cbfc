import Mathlib.Data.List.Chain
import RuleOrder.Proofs.Limit
import RuleOrder.Proofs.Ordering

/-!
What stands behind an answer that one id comes first.

Where no id has a weight, such an answer comes from a node of the walk that is written to stand
before the second id, so the walk to the node and this last step make a path. Careful calls put
no path in a circle. So however many such answers are asked for, each under its own limit and
avoiding ids of its own, they lead nowhere back.
-/

namespace RuleOrder

namespace Table

variable {t : Table} {a b : String} {avoiding : List String} {limit : UInt64}

/-- The ids of `p` lie on a path along `less` from `a` to `b`, in this order. -/
def Between (t : Table) (a b : String) (p : List String) : Prop :=
  (a :: (p ++ [b])).IsChain fun u v => t.relation u v = some .less

lemma Path.between {p : List String} {n c : String} (h : t.Path a b avoiding p n)
    (hn : t.relation n c = some .less) : t.Between a c p := by
  induction h generalizing c with
  | start => exact .cons_cons hn (.singleton c)
  | @step p u v _ hv _ ih =>
    rw [Between, List.append_assoc, ← List.cons_append, List.singleton_append, List.isChain_split]
    exact ⟨ih hv, .cons_cons hn (.singleton c)⟩

lemma Path.not_mem {p : List String} {n : String} (h : t.Path a b avoiding p n) :
    ∀ v ∈ p, v ∉ a :: b :: avoiding := by
  induction h with
  | start => simp
  | step _ _ hb ih =>
    intro v hv
    rcases List.mem_append.mp hv with hv | hv
    · exact ih v hv
    · rwa [List.mem_singleton.mp hv]

/-- **An answer that `a` comes first has a path behind it**, of at most one step more than the
limit allows, that keeps clear of both ids and of what is to be avoided. -/
theorem Weightless.exists_between_le (h : t.Weightless)
    (hless : t.compareAvoiding limit a b avoiding = .less) :
    ∃ p, t.Between a b p ∧ p.length ≤ limit.toNat ∧ ∀ v ∈ p, v ∉ a :: b :: avoiding := by
  obtain ⟨p, n, hp, hlen, hn⟩ := h.exists_path (by decide) hless
  exact ⟨p, hp.between hn, hlen, hp.not_mem⟩

lemma Weightless.exists_between (h : t.Weightless)
    (hless : t.compareAvoiding limit a b avoiding = .less) :
    ∃ p, t.Between a b p ∧ ∀ v ∈ p, v ∉ a :: b :: avoiding := by
  obtain ⟨p, hp, -, hclear⟩ := h.exists_between_le hless
  exact ⟨p, hp, hclear⟩

end Table

namespace Call

variable {ν : Type}

/-- Whether the call gives an id a weight. -/
def setsWeight : Call ν → Bool
  | .setWeight .. => true
  | _ => false

end Call

namespace Graph

variable {ν : Type} [Identified ν] {g : Graph ν} {c : Call ν} {cs : List (Call ν)}

lemma weightless_after (hcareful : c.isCareful = true) (hc : c.setsWeight = false)
    (h : g.table.Weightless) : (g.after c).table.Weightless := by
  rcases table_after_of_isCareful hcareful with heq | ⟨f, -, heq⟩ | ⟨id, w, heq, -⟩
  · rwa [heq]
  · intro a
    rw [heq, Table.weight_record, h, h]
    split_ifs <;> rfl
  · rw [heq] at hc
    cases hc

lemma weightless_run_of_isCareful (hg : g.table.Weightless)
    (hcs : ∀ c ∈ cs, c.isCareful = true ∧ c.setsWeight = false) :
    (g.run cs).table.Weightless := by
  induction cs generalizing g with
  | nil => exact hg
  | cons c cs ih =>
    obtain ⟨hcareful, hc⟩ := hcs c List.mem_cons_self
    exact ih (weightless_after hcareful hc hg) fun d hd => hcs d (List.mem_cons_of_mem c hd)

/-- The answer that `a` comes before `b`, under some limit and avoiding some ids. -/
def AnswersLess (g : Graph ν) (a b : String) : Prop :=
  ∃ limit avoiding, (g.withLimit limit).compareAvoiding a b avoiding = .less

/-- **Answers that one id comes first go in no circle**: each has a path behind it that keeps
clear of what was to be avoided, and from no id do such answers lead back to it. -/
theorem between_of_less (hg : g.Made)
    (hcs : ∀ c ∈ cs, c.isCareful = true ∧ c.setsWeight = false) :
    (∀ limit a b avoiding,
      ((g.run cs).withLimit limit).compareAvoiding a b avoiding = .less →
        ∃ p, (g.run cs).table.Between a b p ∧ ∀ v ∈ p, v ∉ avoiding) ∧
    ∀ a, ¬Relation.TransGen (g.run cs).AnswersLess a a := by
  have hweight : (g.run cs).table.Weightless := by
    refine weightless_run_of_isCareful (fun a => ?_) hcs
    rw [hg.table_eq, Table.weight_empty]
  have hcoherent : (g.run cs).table.Coherent := by
    refine (coherent_run ?_ fun c hc => (hcs c hc).1).1
    rw [hg.table_eq]
    exact Table.coherent_empty
  refine ⟨fun limit a b avoiding hless => ?_, fun a ha => hcoherent.acyclic a ?_⟩
  · obtain ⟨p, hp, hclear⟩ := hweight.exists_between hless
    exact ⟨p, hp, fun v hv hmem => hclear v hv (by simp [hmem])⟩
  · refine Relation.TransGen.closed ?_ a a ha
    rintro x y ⟨limit, avoiding, hless⟩
    exact hweight.leads_of_compareAvoiding hless

/-- Two steps from `a` to `c`, an id that is level with `c`, and a fact that is refused. -/
def twoSteps : List (Call String) :=
  [.tryRecord ⟨"a", .less, "b"⟩, .tryRecordSymbol "c" "b" ">", .tryRecord ⟨"c", .equal, "d"⟩,
    .tryRecord ⟨"c", .less, "a"⟩, .tryPushNode "c"]

theorem between_of_twoSteps :
    (∀ c ∈ twoSteps, c.isCareful = true ∧ c.setsWeight = false) ∧
    ((ofNodes ["a"]).run twoSteps).compareAvoiding "a" "c" ["d"] = .less ∧
    (∃ p, ((ofNodes ["a"]).run twoSteps).table.Between "a" "c" p ∧ ∀ v ∈ p, v ∉ ["d"]) ∧
    ((ofNodes ["a"]).run twoSteps).compareAvoiding "c" "a" [] ≠ .less := by
  have hcs : ∀ c ∈ twoSteps, c.isCareful = true ∧ c.setsWeight = false := by decide
  have hless : ((ofNodes ["a"]).run twoSteps).compareAvoiding "a" "c" ["d"] = .less := by decide
  obtain ⟨hbetween, hcircle⟩ := between_of_less (.ofNodes ["a"]) hcs
  refine ⟨hcs, hless, hbetween 64 "a" "c" ["d"] hless, fun hback => ?_⟩
  exact hcircle "a" (.tail (.single ⟨64, ["d"], hless⟩) ⟨64, [], hback⟩)

end Graph

end RuleOrder
