import RuleOrder.Proofs.Store.Sound

/-!
What a comparison depends on.

A comparison looks at the rows of its first id and of the ids that the first one leads to, and
at the weight of its second id. Where these are alike in two graphs, both answer it alike,
whatever else they know: however their ids came to be numbered, and whichever of the ids to be
avoided each of them has heard of. The two walks go through the same layers, since all that they
meet is in sight, and find the same at each node.
-/

namespace RuleOrder

namespace Table

variable {t u : Table} {a b n : String}

/-- `a` itself and the ids that it leads to. -/
def InSight (t : Table) (a n : String) : Prop := n = a ∨ t.Leads a n

/-- All that a comparison of `a` and `b` can look at is the same in `t` and `u`. -/
structure SeenAlike (t u : Table) (a b : String) : Prop where
  known_first : a ∈ t.ids ↔ a ∈ u.ids
  known_second : b ∈ t.ids ↔ b ∈ u.ids
  relationsOf : ∀ n, t.InSight a n → t.relationsOf n = u.relationsOf n
  weight : ∀ n, t.InSight a n → t.weight n = u.weight n
  weight_second : t.weight b = u.weight b

lemma InSight.step (h : t.InSight a n) {m : String} (hm : m ∈ t.successors n) :
    t.InSight a m := by
  rw [mem_successors] at hm
  rcases h with rfl | h
  · exact Or.inr (.single hm)
  · exact Or.inr (.tail h hm)

lemma InSight.mem {ids : List String} (h : t.InSight a n) (ha : a ∈ ids)
    (hids : ∀ u ∈ ids, ∀ v ∈ t.successors u, v ∈ ids) : n ∈ ids := by
  rcases h with rfl | h
  · exact ha
  · induction h with
    | single hn => exact hids a ha _ (mem_successors.mpr hn)
    | tail _ hn ih => exact hids _ ih _ (mem_successors.mpr hn)

lemma SeenAlike.of_list (ids : List String) (ha : a ∈ ids)
    (hids : ∀ u ∈ ids, ∀ v ∈ t.successors u, v ∈ ids)
    (hfirst : a ∈ t.ids ↔ a ∈ u.ids) (hsecond : b ∈ t.ids ↔ b ∈ u.ids)
    (hrows : ∀ n ∈ ids, t.relationsOf n = u.relationsOf n ∧ t.weight n = u.weight n)
    (hweight : t.weight b = u.weight b) : t.SeenAlike u a b :=
  ⟨hfirst, hsecond, fun n hn => (hrows n (hn.mem ha hids)).1,
    fun n hn => (hrows n (hn.mem ha hids)).2, hweight⟩

/-! ### The same walk -/

lemma relation_congr (h : t.relationsOf a = u.relationsOf a) (b : String) :
    t.relation a b = u.relation a b :=
  congrArg (List.lookup b) h

lemma resolve_congr (hrow : t.relationsOf n = u.relationsOf n) (hn : t.weight n = u.weight n)
    (hb : t.weight b = u.weight b) : t.resolve n b = u.resolve n b := by
  unfold resolve
  rw [hn, hb, relation_congr hrow]

lemma findSome?_congr {α β : Type} {f f' : α → Option β} {xs : List α}
    (h : ∀ x ∈ xs, f x = f' x) : xs.findSome? f = xs.findSome? f' := by
  induction xs with
  | nil => rfl
  | cons x xs ih =>
    have htail := ih fun y hy => h y (List.mem_cons_of_mem x hy)
    rw [List.findSome?_cons, List.findSome?_cons, h x List.mem_cons_self, htail]

lemma firstAnswer_congr {layers : List (List String)}
    (h : ∀ layer ∈ layers, ∀ n ∈ layer, t.resolve n b = u.resolve n b) :
    t.firstAnswer b layers = u.firstAnswer b layers := by
  refine findSome?_congr fun (layer, depth) hlayer => findSome?_congr fun n hn => ?_
  rw [h layer (List.fst_mem_of_mem_zipIdx hlayer) n hn]

lemma inSight_of_mem_layers {m : ℕ} {seen : List String} :
    ∀ layer ∈ Walk.layers t.successors m seen [a], ∀ n ∈ layer, t.InSight a n :=
  Walk.forall_mem_layers (fun _ hn _ hm => hn.step hm) fun _ hn =>
    Or.inl (List.mem_singleton.mp hn)

namespace SeenAlike

variable (h : t.SeenAlike u a b)
include h

lemma resolve (hn : t.InSight a n) : t.resolve n b = u.resolve n b :=
  resolve_congr (h.relationsOf n hn) (h.weight n hn) h.weight_second

lemma layers (m : ℕ) (seen : List String) :
    Walk.layers t.successors m seen [a] = Walk.layers u.successors m seen [a] := by
  refine Walk.layers_congr (P := t.InSight a) (fun _ hn _ hm => hn.step hm) (fun n hn => ?_)
    fun _ hn => Or.inl (List.mem_singleton.mp hn)
  rw [successors, successors, h.relationsOf n hn]

/-- **The two searches come to the same**, at the same node and the same depth. -/
theorem search (limit : UInt64) (avoiding : List String) :
    t.search limit a b avoiding = u.search limit a b avoiding := by
  have hlayers := h.layers (limit.toNat + 1) (a :: b :: avoiding)
  have hanswer : t.firstAnswer b ((Walk.layers u.successors (limit.toNat + 1)
        (a :: b :: avoiding) [a]).take limit.toNat) =
      u.firstAnswer b ((Walk.layers u.successors (limit.toNat + 1)
        (a :: b :: avoiding) [a]).take limit.toNat) := by
    rw [← hlayers]
    exact firstAnswer_congr fun layer hlayer n hn =>
      h.resolve (inSight_of_mem_layers layer (List.mem_of_mem_take hlayer) n hn)
  have hknown : (a ∈ t.ids ∧ b ∈ t.ids) = (a ∈ u.ids ∧ b ∈ u.ids) := by
    rw [h.known_first, h.known_second]
  unfold Table.search
  simp only [h.resolve (Or.inl rfl), hknown, hlayers, hanswer]

end SeenAlike

end Table

namespace Graph

variable {μ ν : Type} [Identified μ] [Identified ν]

/-- **A comparison depends on nothing but what it can see**: where two graphs are reached in
which this is the same, they answer it alike, in its exact and its lenient form. And so they do
when each of them numbers its ids as they come and searches by number. -/
theorem compares_alike_of_seenAlike {g₀ : Graph μ} (hg : g₀.Made) (cs : List (Call μ))
    {g₀' : Graph ν} (hg' : g₀'.Made) (cs' : List (Call ν))
    (hdepth : (g₀.run cs).maxDepth = (g₀'.run cs').maxDepth) {a b : String}
    (hseen : (g₀.run cs).table.SeenAlike (g₀'.run cs').table a b) (avoiding : List String) :
    (g₀.run cs).tryCompareAvoiding a b avoiding =
        (g₀'.run cs').tryCompareAvoiding a b avoiding ∧
    (g₀.run cs).compareAvoiding a b avoiding = (g₀'.run cs').compareAvoiding a b avoiding ∧
    ∃ s s' verdict, (∅ : Store).run cs = .ok s ∧ (∅ : Store).run cs' = .ok s' ∧
      s.search (g₀.run cs).maxDepth a b avoiding = .ok verdict ∧
      s'.search (g₀'.run cs').maxDepth a b avoiding = .ok verdict := by
  have hsearch := hseen.search (g₀'.run cs').maxDepth avoiding
  have hreached : (g₀.run cs).Reached := ⟨g₀, hg, cs, rfl⟩
  have hreached' : (g₀'.run cs').Reached := ⟨g₀', hg', cs', rfl⟩
  refine ⟨?_, ?_, _, _, (g₀'.run cs').table.search (g₀'.run cs').maxDepth a b avoiding,
    store_run hg cs, store_run hg' cs', ?_, ?_⟩
  · unfold tryCompareAvoiding Table.tryCompareAvoiding
    rw [hdepth, hsearch]
  · unfold compareAvoiding Table.compareAvoiding
    rw [hdepth, hsearch]
  · rw [hreached.wellKept.store_search, hdepth, hsearch]
    rfl
  · exact hreached'.wellKept.store_search ..

/-- Two steps from `a` to `c`, and a weight. -/
def bare : List (Call String) :=
  [.record ⟨"a", .less, "b"⟩, .record ⟨"b", .less, "c"⟩, .setWeight "c" 9]

/-- The same among facts about other ids, all of which are numbered before `a` and `b`. -/
def crowded : List (Call String) :=
  [.record ⟨"z", .greater, "e"⟩, .setWeight "e" 3, .recordSymbol "y" "z" "=", .setWeight "c" 9,
    .record ⟨"e", .less, "d"⟩, .derive, .tryRecord ⟨"b", .greater, "a"⟩,
    .tryRecord ⟨"d", .less, "z"⟩, .tryRecord ⟨"b", .less, "c"⟩, .pushNode "a"]

/-- Of the two graphs only one has heard of the id that is to be avoided. -/
theorem compares_alike_crowded :
    ((ofNodes []).run bare).maxDepth = ((ofNodes ["c"]).run crowded).maxDepth ∧
    ((ofNodes []).run bare).table.SeenAlike ((ofNodes ["c"]).run crowded).table "a" "c" ∧
    "e" ∉ ((ofNodes []).run bare).table.ids ∧ "e" ∈ ((ofNodes ["c"]).run crowded).table.ids ∧
    ((ofNodes []).run bare).tryCompareAvoiding "a" "c" ["e"] = .ok .less ∧
    ((ofNodes []).run bare).tryCompareAvoiding "a" "c" ["e"] =
      ((ofNodes ["c"]).run crowded).tryCompareAvoiding "a" "c" ["e"] := by
  have hseen : ((ofNodes []).run bare).table.SeenAlike ((ofNodes ["c"]).run crowded).table
      "a" "c" :=
    .of_list ["a", "b", "c"] (by decide) (by decide) (by decide) (by decide) (by decide)
      (by decide)
  have h := compares_alike_of_seenAlike (.ofNodes []) bare (.ofNodes ["c"]) crowded rfl hseen ["e"]
  exact ⟨rfl, hseen, by decide, by decide, by decide, h.1⟩

end Graph

end RuleOrder
