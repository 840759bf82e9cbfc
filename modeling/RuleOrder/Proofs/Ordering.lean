import RuleOrder.Proofs.Careful
import RuleOrder.Proofs.Merge
import RuleOrder.Proofs.Search

/-!
How far putting nodes in order respects the facts.

Ids that nothing relates are level, and level nodes keep the order in which they came, so being
level does not carry over from one pair to the next. Two nodes that a fact relates can therefore
come out the wrong way round, but only across a lapse: a pair of neighbours between them at
which the later node stops being known to come before.
-/

namespace RuleOrder

namespace Table

/-- No id has a weight. -/
def Weightless (t : Table) : Prop := ∀ a, t.weight a = none

lemma Weightless.resolve_eq {t : Table} (h : t.Weightless) (a b : String) :
    t.resolve a b = t.relation a b := by
  simp [resolve, h a]

lemma Weightless.record {t : Table} (h : t.Weightless) {f : Fact}
    (hf : f.relation.isStrict = true) : (t.record f).Weightless := fun a => by
  rw [weight_record_of_isStrict hf, h a]

lemma Weightless.known_iff {t : Table} (h : t.Weightless) {a b : String} {r : Relation} :
    t.Known a b r ↔ t.relation a b = some r := by
  rw [← resolve_eq_some_iff, h.resolve_eq]

lemma Path.reflTransGen {t : Table} {a b n : String} {avoiding p : List String}
    (h : t.Path a b avoiding p n) :
    Relation.ReflTransGen (fun u v => t.relation u v = some .less) a n := by
  induction h with
  | start => exact .refl
  | step _ hv _ ih => exact ih.tail hv

lemma Weightless.exists_path {t : Table} (h : t.Weightless) {limit : UInt64} {a b : String}
    {avoiding : List String} {r : Relation} (hr : r ≠ .equal)
    (hcmp : t.compareAvoiding limit a b avoiding = r) :
    ∃ p n, t.Path a b avoiding p n ∧ p.length ≤ limit.toNat ∧ t.relation n b = some r := by
  cases compares_of_compareAvoiding hr hcmp with
  | direct hknown => exact ⟨[], a, .start, Nat.zero_le _, h.known_iff.mp hknown⟩
  | via _ _ _ hn hk hknown =>
    obtain ⟨p, hp, hlen, -⟩ := hn.first
    exact ⟨p, _, hp, hlen ▸ hk, h.known_iff.mp hknown⟩
  | unknown | unrelated => exact absurd rfl hr

lemma Weightless.leads_of_compareAvoiding {t : Table} (h : t.Weightless) {limit : UInt64}
    {a b : String} {avoiding : List String}
    (hless : t.compareAvoiding limit a b avoiding = .less) : t.Leads a b := by
  obtain ⟨p, n, hp, -, hn⟩ := h.exists_path (by decide) hless
  exact .trans_right hp.reflTransGen (.single hn)

lemma Weightless.compareAvoiding_of_relation {t : Table} (h : t.Weightless) {limit : UInt64}
    {a b : String} {avoiding : List String} {r : Relation} (hr : t.relation a b = some r) :
    t.compareAvoiding limit a b avoiding = r :=
  (h.known_iff.mpr hr).compareAvoiding

end Table

/-! ### Two items of a list -/

variable {ν : Type}

lemma sublist_or_exists_append {xs : List ν} {x y : ν} (hx : x ∈ xs) (hy : y ∈ xs)
    (hne : x ≠ y) : [x, y].Sublist xs ∨ ∃ l m r, xs = l ++ y :: m ++ x :: r := by
  obtain ⟨s, r, rfl⟩ := List.append_of_mem hx
  rcases List.mem_append.mp hy with hy | hy
  · obtain ⟨l, m, rfl⟩ := List.append_of_mem hy
    exact Or.inr ⟨l, m, r, rfl⟩
  · have hy : y ∈ r := (List.mem_cons.mp hy).resolve_left hne.symm
    refine Or.inl (List.Sublist.trans ?_ (List.sublist_append_right s _))
    exact (List.singleton_sublist.mpr hy).cons_cons x

/-- Where no item has to go before its left neighbour, an item that has to go before one to its
left stops having to at some pair of neighbours on the way. -/
lemma exists_neighbours {before : ν → ν → Bool} {x y : ν} {m : List ν}
    (h : (y :: m ++ [x]).IsChain fun p q => before q p = false) (hxy : before x y = true) :
    ∃ v u, [v, u] <:+: y :: m ∧ before x v = true ∧ before x u = false ∧
      before u v = false := by
  induction m generalizing y with
  | nil =>
    simp only [List.cons_append, List.nil_append, List.isChain_cons_cons] at h
    rw [h.1] at hxy
    cases hxy
  | cons z m ih =>
    rw [List.cons_append, List.cons_append, List.isChain_cons_cons] at h
    by_cases hxz : before x z = true
    · obtain ⟨v, u, hvu, hrest⟩ := ih h.2 hxz
      exact ⟨v, u, hvu.trans (List.suffix_cons y _).isInfix, hrest⟩
    · exact ⟨y, z, (List.prefix_append [y, z] m).isInfix, hxy, Bool.eq_false_iff.mpr hxz, h.1⟩

namespace Graph

variable [Identified ν]

lemma goesBefore_false_iff {g : Graph ν} {x y : ν} :
    g.goesBefore false x y = true ↔ g.compareNodes x y = .less :=
  goesBefore_iff

lemma goesBefore_false_eq_false_iff {g : Graph ν} {x y : ν} :
    g.goesBefore false x y = false ↔ g.compareNodes x y ≠ .less :=
  goesBefore_eq_false_iff

/-- Between `y` and an `x` after it stand two neighbours, the first of which `x` comes before,
but not the second, nor the second before the first. -/
def Lapse (g : Graph ν) (xs : List ν) (x y : ν) : Prop :=
  ∃ l m r v u, xs = l ++ y :: m ++ x :: r ∧ [v, u] <:+: y :: m ∧
    g.compareNodes x v = .less ∧ g.compareNodes x u ≠ .less ∧ g.compareNodes u v ≠ .less

lemma sublist_ordered_or_lapse {g : Graph ν}
    (hg : ∀ x y, g.compareNodes x y = .less → g.compareNodes y x ≠ .less) {x y : ν}
    (hx : x ∈ g.nodes) (hy : y ∈ g.nodes) (hxy : g.compareNodes x y = .less) :
    [x, y].Sublist (g.ordered false) ∨ g.Lapse (g.ordered false) x y := by
  have hchain : (g.ordered false).IsChain fun p q => g.goesBefore false q p = false := by
    refine isChain_mergeSort (List.pairwise_of_forall fun p q => ⟨fun h => ?_, id⟩)
    exact goesBefore_false_eq_false_iff.mpr (hg q p (goesBefore_false_iff.mp h))
  have hne : x ≠ y := by
    rintro rfl
    exact hg x x hxy hxy
  have hmem : ∀ z, z ∈ g.nodes → z ∈ g.ordered false := fun z =>
    (g.ordered_perm false).mem_iff.mpr
  refine (sublist_or_exists_append (hmem x hx) (hmem y hy) hne).imp_right ?_
  rintro ⟨l, m, r, heq⟩
  have hinfix : y :: m ++ [x] <:+: g.ordered false := ⟨l, r, by rw [heq]; simp⟩
  have hbetween := List.IsChain.infix hchain hinfix
  obtain ⟨v, u, hvu, h1, h2, h3⟩ := exists_neighbours hbetween (goesBefore_false_iff.mpr hxy)
  exact ⟨l, m, r, v, u, heq, hvu, goesBefore_false_iff.mp h1,
    goesBefore_false_eq_false_iff.mp h2, goesBefore_false_eq_false_iff.mp h3⟩

lemma ordered_of_lapse {g : Graph ν} {x v u : ν} (hxu : g.compareNodes x u ≠ .less)
    (huv : g.compareNodes u v ≠ .less) :
    ({ g with nodes := [v, u, x] } : Graph ν).ordered false = [v, u, x] := by
  rw [← goesBefore_false_eq_false_iff, ← Bool.not_eq_true] at hxu huv
  change mergeSort (g.goesBefore false) [v, u, x] = [v, u, x]
  rw [mergeSort_triple, MergeSort.merge_cons_cons, if_neg hxu, MergeSort.merge_nil_left,
    MergeSort.merge_cons_cons, if_neg huv, MergeSort.merge_nil_left]

/-! ### Strict facts alone -/

lemma run_tryRecord_induction {P : Table → Prop} {g : Graph ν} (hg : P g.table)
    (hstep : ∀ t f, P t → f.relation.isStrict = true → t.refusal? f = none → P (t.record f))
    {fs : List Fact} (hfs : ∀ f ∈ fs, f.relation.isStrict = true) :
    P (g.run (fs.map .tryRecord)).table := by
  induction fs generalizing g with
  | nil => exact hg
  | cons f fs ih =>
    refine ih ?_ fun f' hf' => hfs f' (List.mem_cons_of_mem _ hf')
    rcases g.table_after_tryRecord f with heq | ⟨hf, heq⟩ <;> rw [heq]
    · exact hg
    · exact hstep _ f hg (hfs f List.mem_cons_self) hf

lemma weightless_run {g : Graph ν} (hg : g.table.Weightless) {fs : List Fact}
    (hfs : ∀ f ∈ fs, f.relation.isStrict = true) :
    (g.run (fs.map .tryRecord)).table.Weightless :=
  run_tryRecord_induction hg (fun _ _ ht hf _ => ht.record hf) hfs

/-- **Facts are respected but for lapses**: in a graph of strict facts alone, each taken in with
care, a node that a fact puts before another goes ahead of it unless there is a lapse between
them; and three nodes with a lapse stay the wrong way round when they are given so. -/
theorem ordered_of_relation_eq_less {g₀ g : Graph ν} (h₀ : g₀.Made) {fs : List Fact}
    (hfs : ∀ f ∈ fs, f.relation.isStrict = true) (hg : g₀.granting (fs.map .tryRecord) = .ok g) :
    (∀ x ∈ g.nodes, ∀ y ∈ g.nodes,
      g.table.relation (Identified.id x) (Identified.id y) = some .less →
        [x, y].Sublist (g.ordered false) ∨ g.Lapse (g.ordered false) x y) ∧
    ∀ x v u, g.compareNodes x v = .less → g.compareNodes x u ≠ .less →
      g.compareNodes u v ≠ .less →
        ({ g with nodes := [v, u, x] } : Graph ν).ordered false = [v, u, x] := by
  have hrun := run_of_granting hg
  have hcareful : ∀ c ∈ fs.map (Call.tryRecord (ν := ν)), c.isCareful = true := by
    simp [Call.isCareful]
  have hcoherent : g.table.Coherent := by
    rw [← hrun]
    refine (coherent_run ?_ hcareful).1
    rw [h₀.table_eq]
    exact Table.coherent_empty
  have hweight : g.table.Weightless := by
    rw [← hrun]
    refine weightless_run (fun a => ?_) hfs
    rw [h₀.table_eq, Table.weight_empty]
  refine ⟨fun x hx y hy hxy => ?_, fun x v u _ => ordered_of_lapse⟩
  refine sublist_ordered_or_lapse (fun p q hpq hqp => ?_) hx hy ?_
  · exact hcoherent.acyclic _ ((hweight.leads_of_compareAvoiding hpq).trans
      (hweight.leads_of_compareAvoiding hqp))
  · exact hweight.compareAvoiding_of_relation hxy

/-- A node that is level with both keeps two related ones as they came. -/
theorem ordered_of_one_fact :
    (∀ f ∈ ([⟨"a", .less, "b"⟩] : List Fact), f.relation.isStrict = true) ∧
    ∃ g, (ofNodes ["b", "u", "a"]).granting [.tryRecord ⟨"a", .less, "b"⟩] = .ok g ∧
      (["a", "b"].Sublist (g.ordered false) ∨ g.Lapse (g.ordered false) "a" "b") ∧
      g.ordered false = ["b", "u", "a"] := by
  have hfs : ∀ f ∈ ([⟨"a", .less, "b"⟩] : List Fact), f.relation.isStrict = true := by decide
  have h := ordered_of_relation_eq_less (.ofNodes ["b", "u", "a"]) hfs rfl
  exact ⟨hfs, _, rfl, h.1 "a" (by decide) "b" (by decide) (by decide),
    h.2 "a" "b" "u" (by decide) (by decide) (by decide)⟩

/-- Facts that the nodes `r`, `x`, `y` and `n` respect in this order and in no other. -/
def tangle : List Fact :=
  [⟨"r", .less, "n"⟩, ⟨"y", .less, "n"⟩, ⟨"r", .less, "x"⟩, ⟨"x", .less, "y"⟩]

def tangled : Graph String := (ofNodes ["y", "r", "x", "n"]).run (tangle.map .tryRecord)

lemma ordered_tangled : tangled.ordered false = ["x", "y", "r", "n"] := by
  have hry : tangled.goesBefore false "r" "y" = false := by decide
  have hnx : tangled.goesBefore false "n" "x" = false := by decide
  have hxy : tangled.goesBefore false "x" "y" = true := by decide
  have hny : tangled.goesBefore false "n" "y" = false := by decide
  have hnr : tangled.goesBefore false "n" "r" = false := by decide
  change mergeSort _ ["y", "r", "x", "n"] = _
  simp [mergeSort, MergeSort.firstHalf, MergeSort.secondHalf, MergeSort.merge_cons_cons,
    MergeSort.merge_nil_left, hry, hnx, hxy, hny, hnr]

/-- **A fact can come out the wrong way round**, though all facts are strict and taken in with
care, the ids of the nodes differ, no id has a weight and the depth is that of all ids. -/
theorem not_sublist_ordered_tangled :
    tryOfNodes ["y", "r", "x", "n"] = .ok (ofNodes ["y", "r", "x", "n"]) ∧
    (∀ f ∈ tangle, f.relation.isStrict = true) ∧
    (ofNodes ["y", "r", "x", "n"]).granting (tangle.map .tryRecord) = .ok tangled ∧
    tangled.table.Weightless ∧ tangled.table.ids.length ≤ tangled.maxDepth.toNat ∧
    "r" ∈ tangled.nodes ∧ "x" ∈ tangled.nodes ∧ tangled.table.relation "r" "x" = some .less ∧
    tangled.ordered false = ["x", "y", "r", "n"] ∧
    ¬["r", "x"].Sublist (tangled.ordered false) := by
  refine ⟨rfl, by decide, rfl, weightless_run (fun _ => rfl) (by decide), by decide, by decide,
    by decide, by decide, ordered_tangled, ?_⟩
  rw [ordered_tangled]
  decide

end Graph

end RuleOrder
