import RuleOrder.Proofs.Chain
import RuleOrder.Proofs.Inference
import RuleOrder.Proofs.Ranking

/-!
A chain put in order forwards.

Going up a chain the walk of a comparison passes one id after the other, and none of them is
known to come after an id further up. So within the depth of the graph the comparison tells of
any two ids of the chain which one comes first, and by this test the sort gathers the nodes id
by id. It makes no difference from which side each link was said.
-/

namespace RuleOrder

namespace Fact

/-- The same fact, said of the id that it puts first. -/
def ascending (f : Fact) : Fact := if f.relation = .greater then f.converse else f

lemma mem_sides_ascending {f p : Fact} : p ∈ f.ascending.sides ↔ p ∈ f.sides := by
  unfold ascending
  split_ifs with hf
  · have hstrict : f.relation.isStrict = true := Relation.isStrict_iff.mpr (by simp [hf])
    rw [mem_sides, mem_sides, converse_converse]
    simp [hstrict, converse, or_comm]
  · rfl

end Fact

lemma exists_side_iff_of_ascending {fs gs : List Fact}
    (h : ∀ f, f ∈ fs.map Fact.ascending ↔ f ∈ gs) (p : Fact) :
    (∃ f ∈ fs, p ∈ f.sides) ↔ ∃ f ∈ gs, p ∈ f.sides := by
  simp only [← h, List.mem_map, exists_exists_and_eq_and, Fact.mem_sides_ascending]

namespace Table

variable {t : Table} {chain : List String} {a b : String} {limit : UInt64}

/-! ### Two ids of a chain -/

lemma Chained.idxOf_of_relation (h : t.Chained chain) (hchain : chain.Nodup)
    (hab : t.relation a b = some .less) :
    a ∈ chain ∧ b ∈ chain ∧ chain.idxOf b = chain.idxOf a + 1 :=
  (pair_infix_iff_idxOf hchain).mp ((h.less_iff a b).mp hab)

lemma Chained.idxOf_lt_of_leads (h : t.Chained chain) (hchain : chain.Nodup)
    (hab : t.Leads a b) : chain.idxOf a < chain.idxOf b := by
  induction hab with
  | single hb =>
    have hstep := h.idxOf_of_relation hchain hb
    omega
  | tail _ hb ih =>
    have hstep := h.idxOf_of_relation hchain hb
    omega

lemma Chained.idxOf_lt_of_around (h : t.Chained chain) (hchain : chain.Nodup)
    (hlt : chain.idxOf a < chain.idxOf b) {n : String} (hn : t.Around b a n) :
    chain.idxOf n < chain.idxOf b := by
  induction hn with
  | refl => exact hlt
  | tail _ hv ih =>
    obtain ⟨hstep, hne⟩ := hv
    obtain ⟨-, hmem, hidx⟩ := h.idxOf_of_relation hchain hstep
    have hother : chain.idxOf _ ≠ chain.idxOf b := fun heq => hne ((List.idxOf_inj hmem).mp heq)
    omega

lemma Chained.unopposed (h : t.Chained chain) (hchain : chain.Nodup)
    (hlt : chain.idxOf a < chain.idxOf b) : t.Unopposed a b := by
  intro n r hn hr
  cases r with
  | less => rfl
  | equal => exact absurd hr (h.not_level n b)
  | greater =>
    have hbelow := h.idxOf_lt_of_around hchain hlt hn
    have habove := (pair_infix_iff_idxOf hchain).mp ((h.greater_iff n b).mp hr)
    omega

lemma Chained.exists_between (h : t.Chained chain) (hchain : chain.Nodup) (ha : a ∈ chain)
    (hb : b ∈ chain) (hlt : chain.idxOf a < chain.idxOf b) :
    ∃ p, t.Between a b p ∧ p.length + 2 ≤ chain.length := by
  have hne : b ≠ a := by
    rintro rfl
    exact absurd hlt (lt_irrefl _)
  have hnot : ¬[b, a].Sublist chain := fun hba => by
    have hgt := idxOf_lt_of_pair_sublist hchain hba
    omega
  obtain ⟨l, p, r, heq⟩ := (sublist_or_exists_append hb ha hne).resolve_left hnot
  have hsteps : chain.IsChain fun u v => t.relation u v = some .less := by
    refine List.isChain_iff_forall_rel_of_append_cons_cons.mpr fun u v l r heq => ?_
    exact (h.less_iff u v).mpr ⟨l, r, by rw [heq, List.append_assoc]; rfl⟩
  refine ⟨p, hsteps.infix ⟨l, r, ?_⟩, ?_⟩
  · rw [heq]
    simp
  · rw [heq]
    simp only [List.length_append, List.length_cons]
    omega

/-- **Coming first is seen over the whole of a chain** that is not longer than the limit
allows. -/
theorem Chained.compareAvoiding_eq_less_iff (h : t.Chained chain) (hchain : chain.Nodup)
    (ha : a ∈ chain) (hb : b ∈ chain) (hdepth : chain.length ≤ limit.toNat + 2) :
    t.compareAvoiding limit a b [] = .less ↔ chain.idxOf a < chain.idxOf b := by
  constructor
  · intro hless
    exact h.idxOf_lt_of_leads hchain (h.weightless.leads_of_compareAvoiding hless)
  · intro hlt
    obtain ⟨p, hp, hlen⟩ := h.exists_between hchain ha hb hlt
    obtain ⟨q, n, -, -, hn⟩ := hp.exists_path
    have hknown : b ∈ t.ids :=
      mem_ids_of_relation ((h.greater_iff b n).mpr ((h.less_iff n b).mp hn))
    refine (h.weightless.compareAvoiding_eq_less_iff (h.unopposed hchain hlt) hknown).mpr ?_
    exact ⟨p, hp, by omega⟩

end Table

/-! ### Calls of facts -/

/-- The fact that a call takes in, whether it is checked or not. -/
def Call.fact? {ν : Type} : Call ν → Option Fact
  | .record f | .tryRecord f => some f
  | .recordSymbol a b symbol => some ⟨a, .ofSymbol symbol, b⟩
  | .tryRecordSymbol a b symbol => (Relation.ofSymbol? symbol).map fun r => ⟨a, r, b⟩
  | .setWeight .. | .derive | .pushNode _ | .tryPushNode _ => none

namespace Graph

variable {ν : Type} [Identified ν] {g g' : Graph ν}

lemma table_of_call_tryRecord {f : Fact} (h : g.call (.tryRecord f) = .ok g') :
    g'.table = g.table.record f := by
  cases hf : g.table.refusal? f with
  | none =>
    rw [call_tryRecord_of_granted hf] at h
    cases h
    rfl
  | some fault =>
    rw [call_tryRecord_of_refused hf] at h
    cases h

lemma table_of_call {c : Call ν} {f : Fact} (hc : c.fact? = some f) (h : g.call c = .ok g') :
    g'.table = g.table.record f := by
  cases c with
  | record | recordSymbol =>
    cases hc
    cases h
    rfl
  | tryRecord =>
    cases hc
    exact table_of_call_tryRecord h
  | tryRecordSymbol a b symbol =>
    obtain ⟨r, hr, rfl⟩ := Option.map_eq_some_iff.mp hc
    rw [call_tryRecordSymbol_of_some hr] at h
    exact table_of_call_tryRecord h
  | setWeight | derive | pushNode | tryPushNode => cases hc

lemma table_of_granting {cs : List (Call ν)} {fs : List Fact}
    (hcs : cs.map Call.fact? = fs.map some) (h : g.granting cs = .ok g') :
    g'.table = g.table.recordAll fs := by
  induction cs generalizing g fs with
  | nil =>
    obtain rfl : fs = [] := List.map_eq_nil_iff.mp hcs.symm
    cases h
    rfl
  | cons c cs ih =>
    obtain ⟨f, fs, rfl, hf, hfs⟩ := List.map_eq_cons_iff.mp hcs.symm
    unfold granting at h
    rw [List.foldlM_cons] at h
    cases hc : g.call c with
    | error fault =>
      rw [hc] at h
      cases h
    | ok g₁ =>
      rw [hc] at h
      rw [ih hfs.symm h, table_of_call hf.symm hc]
      rfl

/-- **A chain comes out forwards**: where nothing is known but the links of a chain, said in any
order and each from either side, and the chain has at most two ids more than the depth of the
graph, the nodes come out by the places of their ids in the chain, and those of one id in the
order in which they came. -/
theorem ordered_false_of_links {chain : List String} (hchain : chain.Nodup) {fs : List Fact}
    (hfs : ∀ f, f ∈ fs.map Fact.ascending ↔ f ∈ links chain) {g₀ g : Graph ν} (h₀ : g₀.Made)
    {cs : List (Call ν)} (hcs : cs.map Call.fact? = fs.map some) (hg : g₀.granting cs = .ok g)
    (hdepth : chain.length ≤ g.maxDepth.toNat + 2)
    (hnodes : ∀ x ∈ g.nodes, Identified.id x ∈ chain) :
    g.ordered false =
      chain.flatMap fun id => g.nodes.filter fun x => Identified.id x = id := by
  have hchained : g.table.Chained chain := by
    rw [table_of_granting hcs hg, h₀.table_eq]
    exact Table.chained_recordAll_of_sides hchain (exists_side_iff_of_ascending hfs)
  have hranks : MergeSort.Ranks (g.goesBefore false) (height chain) g.nodes := by
    intro x hx y hy
    rw [goesBefore_false_iff]
    exact hchained.compareAvoiding_eq_less_iff hchain (hnodes x hx) (hnodes y hy) hdepth
  have hplaces : (chain.map chain.idxOf).Pairwise (· < ·) :=
    List.pairwise_map.mpr (Table.pairwise_idxOf hchain)
  have hmem : ∀ x ∈ g.nodes, height chain x ∈ chain.map chain.idxOf :=
    fun x hx => List.mem_map_of_mem (hnodes x hx)
  rw [ordered, mergeSort_eq_flatMap_ofRank hranks hplaces hmem, List.flatMap_map]
  refine List.flatMap_congr fun id _ => List.filter_congr fun x hx => ?_
  rw [decide_eq_decide]
  exact List.idxOf_inj (hnodes x hx)

/-- The links of a chain of three, the upper one said first and from its upper end. -/
def linkFacts : List Fact := [⟨"c", .greater, "b"⟩, ⟨"a", .less, "b"⟩]

def linkCalls : List (Call Scope) := [.recordSymbol "c" "b" ">", .tryRecordSymbol "a" "b" "<"]

/-- Two nodes for each end of the chain, and none for its middle. -/
def ends : List Scope :=
  [.parser "c" default, .parser "a" default, .lexer "c" default, .lexer "a" default]

/-- A graph of the depth that a chain of three just takes. -/
theorem ordered_false_of_ends :
    ["a", "b", "c"].Nodup ∧ (linkFacts.map Fact.ascending).Perm (links ["a", "b", "c"]) ∧
    linkCalls.map Call.fact? = linkFacts.map some ∧
    ∃ g, (withDepth ends 1).granting linkCalls = .ok g ∧
      ["a", "b", "c"].length ≤ g.maxDepth.toNat + 2 ∧
      (∀ x ∈ g.nodes, Identified.id x ∈ ["a", "b", "c"]) ∧
      g.ordered false = [.parser "a" default, .lexer "a" default, .parser "c" default,
        .lexer "c" default] := by
  have hchain : ["a", "b", "c"].Nodup := by decide
  have hfs : (linkFacts.map Fact.ascending).Perm (links ["a", "b", "c"]) := by decide
  have hcs : linkCalls.map Call.fact? = linkFacts.map some := by decide
  have hg : (withDepth ends 1).granting linkCalls = .ok ((withDepth ends 1).run linkCalls) := by
    decide
  have hdepth : ["a", "b", "c"].length ≤ ((withDepth ends 1).run linkCalls).maxDepth.toNat + 2 := by
    decide
  have hnodes : ∀ x ∈ ((withDepth ends 1).run linkCalls).nodes,
      Identified.id x ∈ ["a", "b", "c"] := by decide
  have h := ordered_false_of_links hchain (fun _ => hfs.mem_iff) (.withDepth ends 1) hcs hg
    hdepth hnodes
  exact ⟨hchain, hfs, hcs, _, hg, hdepth, hnodes, h.trans (by decide)⟩

end Graph

end RuleOrder
