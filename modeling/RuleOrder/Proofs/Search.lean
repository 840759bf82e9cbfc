import RuleOrder.Graph.Call
import RuleOrder.Proofs.Reach

/-!
What a comparison comes to, told without the search.

The answer is what is known of the two ids at once, or else what is known of the foremost node
on the way: the nearest one of which something is known against the second id, and of several
equally near ones the one that the first path leads to. The search goes layer by layer, and
since a layer holds the nodes of one depth in the order of their first paths, the first answer
it meets is that one.
-/

namespace RuleOrder

namespace Table

/-! ### The reference -/

/-- What is known of `a` against `b` at once: by their weights, by the marker weight of `a`, or
by what is written for `a`. -/
inductive Known (t : Table) (a b : String) : Relation → Prop
  | weights {v w : Int64} (ha : t.weight a = some v) (hb : t.weight b = some w) :
      Known t a b (.ofOrdering (compare v w))
  | marker (ha : t.weight a = some alwaysFirst) (hb : t.weight b = none) : Known t a b .less
  | edge {r : Relation} (h : t.weight a = none ∨ t.weight b = none)
      (ha : t.weight a ≠ some alwaysFirst) (hr : t.relation a b = some r) : Known t a b r

/-- A path from `a` to `n` along `less` through the nodes of a list in turn, all of which lie
outside `a`, `b` and what is to be avoided. -/
inductive Path (t : Table) (a b : String) (avoiding : List String) : List String → String → Prop
  | start : Path t a b avoiding [] a
  | step {p : List String} {u v : String} (h : Path t a b avoiding p u)
      (hv : t.relation u v = some .less) (hb : v ∉ a :: b :: avoiding) :
      Path t a b avoiding (p ++ [v]) v

/-- The shortest paths from `a` to `n` have `k` steps, one or more. -/
structure Depth (t : Table) (a b : String) (avoiding : List String) (n : String) (k : ℕ) :
    Prop where
  pos : 1 ≤ k
  reached : ∃ p, t.Path a b avoiding p n ∧ p.length = k
  least : ∀ p, t.Path a b avoiding p n → k ≤ p.length

/-- Something is known of `n` against `b`, of no nearer node is anything known, and of those
at the same depth none has a shortest path that comes before the first one to `n`. -/
structure Foremost (t : Table) (a b : String) (avoiding : List String) (n : String) (k : ℕ) :
    Prop where
  depth : t.Depth a b avoiding n k
  known : ∃ r, t.Known n b r
  nearest : ∀ m j, t.Depth a b avoiding m j → (∃ r, t.Known m b r) → k ≤ j
  first : ∃ p, t.Path a b avoiding p n ∧ p.length = k ∧
    ∀ m q, t.Depth a b avoiding m k → (∃ r, t.Known m b r) → t.Path a b avoiding q m →
      q.length = k →
      ¬List.Lex (· < ·) (Walk.placing t.place a q) (Walk.placing t.place a p)

/-- What the exact comparison of `a` and `b` comes to. -/
inductive Compares (t : Table) (limit : UInt64) (a b : String) (avoiding : List String) :
    Except Fault Relation → Prop
  | direct {r : Relation} (hr : t.Known a b r) : Compares t limit a b avoiding (.ok r)
  | unknown (h : ∀ r, ¬t.Known a b r) (hid : a ∉ t.ids ∨ b ∉ t.ids) :
      Compares t limit a b avoiding (.ok .equal)
  | via {n : String} {k : ℕ} {r : Relation} (h : ∀ r, ¬t.Known a b r) (ha : a ∈ t.ids)
      (hb : b ∈ t.ids) (hn : t.Foremost a b avoiding n k) (hk : k ≤ limit.toNat)
      (hr : t.Known n b r) : Compares t limit a b avoiding (.ok r)
  | undecided (h : ∀ r, ¬t.Known a b r) (ha : a ∈ t.ids) (hb : b ∈ t.ids)
      (hno : ∀ n k, t.Depth a b avoiding n k → k ≤ limit.toNat → ∀ r, ¬t.Known n b r)
      (hd : ∃ n, t.Depth a b avoiding n (limit.toNat + 1)) :
      Compares t limit a b avoiding (.error (.searchTooDeep a b limit))
  | unrelated (h : ∀ r, ¬t.Known a b r) (ha : a ∈ t.ids) (hb : b ∈ t.ids)
      (hno : ∀ n k, t.Depth a b avoiding n k → k ≤ limit.toNat → ∀ r, ¬t.Known n b r)
      (hd : ¬∃ n, t.Depth a b avoiding n (limit.toNat + 1)) :
      Compares t limit a b avoiding (.ok .equal)

/-! ### What is known at once -/

lemma resolve_eq_some_iff {t : Table} {a b : String} {r : Relation} :
    t.resolve a b = some r ↔ t.Known a b r := by
  refine ⟨fun h => ?_, fun h => ?_⟩
  · unfold resolve at h
    rcases hv : t.weight a with _ | v <;> rcases hw : t.weight b with _ | w <;>
      simp only [hv, hw] at h
    · exact .edge (Or.inl hv) (by simp [hv]) h
    · exact .edge (Or.inl hv) (by simp [hv]) h
    · split_ifs at h with hfirst
      · cases h
        exact .marker (by rw [hv, hfirst]) hw
      · exact .edge (Or.inr hw) (by simpa [hv] using hfirst) h
    · cases h
      exact .weights hv hw
  · unfold resolve
    cases h with
    | weights ha hb => simp [ha, hb]
    | marker ha hb => simp [ha, hb]
    | edge h ha hr =>
      rcases hv : t.weight a with _ | v
      · simpa using hr
      · rw [hv] at h ha
        obtain hw : t.weight b = none := by simpa using h
        have hne : v ≠ alwaysFirst := by simpa using ha
        simpa [hw, hne] using hr

lemma resolve_eq_none_iff {t : Table} {a b : String} :
    t.resolve a b = none ↔ ∀ r, ¬t.Known a b r := by
  simp only [Option.eq_none_iff_forall_ne_some, ne_eq, resolve_eq_some_iff]

lemma Known.unique {t : Table} {a b : String} {r s : Relation} (hr : t.Known a b r)
    (hs : t.Known a b s) : r = s := by
  rw [← resolve_eq_some_iff] at hr hs
  exact Option.some.inj (hr.symm.trans hs)

/-! ### Paths and layers -/

lemma path_iff_route {t : Table} {a b n : String} {avoiding p : List String} :
    t.Path a b avoiding p n ↔ Walk.Route t.successors (a :: b :: avoiding) a p n := by
  constructor
  · intro h
    induction h with
    | start => exact .start
    | step _ hv hb ih => exact ih.step (mem_successors.mpr hv) hb
  · intro h
    induction h with
    | start => exact .start
    | step _ hv hb ih => exact ih.step (mem_successors.mp hv) hb

lemma depth_iff {t : Table} {a b n : String} {avoiding : List String} {k : ℕ} :
    t.Depth a b avoiding n k ↔
      1 ≤ k ∧ Walk.AtDepth t.successors (a :: b :: avoiding) a n k := by
  constructor
  · intro h
    obtain ⟨p, hp, hlen⟩ := h.reached
    exact ⟨h.pos, ⟨p, path_iff_route.mp hp, hlen⟩, fun q hq => h.least q (path_iff_route.mpr hq)⟩
  · rintro ⟨hpos, ⟨p, hp, hlen⟩, hleast⟩
    exact ⟨hpos, ⟨p, path_iff_route.mpr hp, hlen⟩, fun q hq => hleast q (path_iff_route.mp hq)⟩

lemma isLayer_getD (t : Table) (a b : String) (avoiding : List String) {m i : ℕ} (hi : i < m) :
    Walk.IsLayer t.successors (a :: b :: avoiding) a t.place (i + 1)
      ((Walk.layers t.successors m (a :: b :: avoiding) [a]).getD i []) :=
  Walk.isLayer_getD_layers t.pairwise_successors List.mem_cons_self hi

lemma Depth.exists_succ {t : Table} {a b n : String} {avoiding : List String} {k : ℕ}
    (h : t.Depth a b avoiding n k) : ∃ i, k = i + 1 := by
  have hpos := h.pos
  exact ⟨k - 1, by omega⟩

lemma mem_layer_iff {t : Table} {a b n : String} {avoiding : List String} {m i : ℕ}
    (hi : i < m) :
    n ∈ (Walk.layers t.successors m (a :: b :: avoiding) [a]).getD i [] ↔
      t.Depth a b avoiding n (i + 1) := by
  rw [(t.isLayer_getD a b avoiding hi).mem_iff, depth_iff]
  exact ⟨fun h => ⟨by omega, h⟩, fun h => h.2⟩

lemma exists_path_before {t : Table} {a b n m : String} {avoiding l r q : List String}
    {steps i : ℕ} (hi : i < steps)
    (hl : (Walk.layers t.successors steps (a :: b :: avoiding) [a]).getD i [] = l ++ n :: r)
    (hm : m ∈ r) (hq : t.Path a b avoiding q m) (hlen : q.length = i + 1) :
    ∃ p, t.Path a b avoiding p n ∧ p.length = i + 1 ∧
      List.Lex (· < ·) (Walk.placing t.place a p) (Walk.placing t.place a q) := by
  have hlayer := t.isLayer_getD a b avoiding hi
  rw [hl] at hlayer
  obtain ⟨p, hp, hplen, hlex⟩ := hlayer.ahead_of_append hm q (path_iff_route.mp hq) hlen
  exact ⟨p, path_iff_route.mpr hp, hplen, hlex⟩

/-! ### The foremost node -/

lemma Foremost.unique {t : Table} {a b : String} {avoiding : List String} {n m : String}
    {j k : ℕ} (hn : t.Foremost a b avoiding n j) (hm : t.Foremost a b avoiding m k) :
    n = m ∧ j = k := by
  obtain rfl : j = k := Nat.le_antisymm (hn.nearest m k hm.depth hm.known)
    (hm.nearest n j hn.depth hn.known)
  refine ⟨?_, rfl⟩
  obtain ⟨i, rfl⟩ := hn.depth.exists_succ
  -- whichever of the two stands first in the layer has a path before the first one to the other
  have hnot : ∀ n m l r, t.Foremost a b avoiding n (i + 1) → t.Foremost a b avoiding m (i + 1) →
      (Walk.layers t.successors (i + 1) (a :: b :: avoiding) [a]).getD i [] = l ++ n :: r →
      m ∉ r := by
    intro n m l r hn hm heq hmem
    obtain ⟨q, hq, hqlen, hqfirst⟩ := hm.first
    obtain ⟨p, hp, hplen, hlex⟩ := exists_path_before (Nat.lt_succ_self i) heq hmem hq hqlen
    exact hqfirst n p hn.depth hn.known hp hplen hlex
  by_contra hne
  obtain ⟨l, r, heq⟩ := List.append_of_mem ((mem_layer_iff (Nat.lt_succ_self i)).mpr hn.depth)
  have hmem := (mem_layer_iff (Nat.lt_succ_self i)).mpr hm.depth
  rw [heq, List.mem_append, List.mem_cons] at hmem
  rcases hmem with hmem | hmem | hmem
  · obtain ⟨l₁, l₂, rfl⟩ := List.append_of_mem hmem
    exact hnot m n l₁ (l₂ ++ n :: r) hm hn (by rw [heq, List.append_assoc, List.cons_append])
      (by simp)
  · exact hne hmem.symm
  · exact hnot n m l r hn hm heq hmem

/-! ### The first answer -/

lemma exists_of_firstAnswer {t : Table} {b : String} {layers : List (List String)}
    {r : Relation} {n : String} {d : ℕ} (h : t.firstAnswer b layers = some (r, n, d)) :
    ∃ i < layers.length, d = i + 1 ∧ t.resolve n b = some r ∧
      (∃ x y, layers.getD i [] = x ++ n :: y ∧ ∀ m ∈ x, t.resolve m b = none) ∧
      ∀ j < i, ∀ m ∈ layers.getD j [], t.resolve m b = none := by
  obtain ⟨l₁, ⟨layer, depth⟩, l₂, hz, hf, hbefore⟩ := List.findSome?_eq_some_iff.mp h
  have hget : ∀ i, (layers.zipIdx 1)[i]? = layers[i]?.map fun l => (l, 1 + i) :=
    fun i => List.getElem?_zipIdx ..
  have hi := hget l₁.length
  rw [hz, List.getElem?_append_right (Nat.le_refl _), Nat.sub_self,
    List.getElem?_cons_zero] at hi
  obtain ⟨layer', hlayer, heq⟩ := Option.map_eq_some_iff.mp hi.symm
  obtain ⟨rfl, rfl⟩ : layer' = layer ∧ 1 + l₁.length = depth := by simpa using heq
  obtain ⟨x, n', y, hxy, hn, hx⟩ := List.findSome?_eq_some_iff.mp hf
  obtain ⟨r', hr, heq'⟩ := Option.map_eq_some_iff.mp hn
  obtain ⟨rfl, rfl, rfl⟩ : r' = r ∧ n' = n ∧ 1 + l₁.length = d := by simpa using heq'
  obtain ⟨hlt, -⟩ := List.getElem?_eq_some_iff.mp hlayer
  refine ⟨l₁.length, hlt, by omega, hr, ⟨x, y, ?_, fun m hm => ?_⟩, fun j hj m hm => ?_⟩
  · rw [List.getD_eq_getElem?_getD, hlayer, Option.getD_some, hxy]
  · simpa using hx m hm
  · have hj' := hget j
    rw [hz, List.getElem?_append_left hj, List.getElem?_eq_getElem hj,
      List.getElem?_eq_getElem (by omega), Option.map_some, Option.some.injEq] at hj'
    rw [List.getD_eq_getElem _ _ (by omega)] at hm
    have := hbefore l₁[j] (List.getElem_mem hj)
    rw [hj'] at this
    simpa using List.findSome?_eq_none_iff.mp this m hm

lemma resolve_eq_none_of_firstAnswer {t : Table} {b : String} {layers : List (List String)}
    (h : t.firstAnswer b layers = none) {i : ℕ} {m : String} (hm : m ∈ layers.getD i []) :
    t.resolve m b = none := by
  rcases Nat.lt_or_ge i layers.length with hi | hi
  · rw [List.getD_eq_getElem _ _ hi] at hm
    have hmem : (layers[i], 1 + i) ∈ layers.zipIdx 1 := by
      rw [List.mem_iff_getElem?]
      exact ⟨i, by rw [List.getElem?_zipIdx, List.getElem?_eq_getElem hi, Option.map_some]⟩
    have := List.findSome?_eq_none_iff.mp h _ hmem
    simpa using List.findSome?_eq_none_iff.mp this m hm
  · rw [List.getD_eq_default _ _ hi] at hm
    simp at hm

lemma getD_take {layers : List (List String)} {limit i : ℕ} (hi : i < limit) :
    (layers.take limit).getD i [] = layers.getD i [] := by
  rw [List.getD_eq_getElem?_getD, List.getElem?_take_of_lt hi, List.getD_eq_getElem?_getD]

lemma foremost_of_firstAnswer {t : Table} {a b : String} {avoiding : List String} {limit d : ℕ}
    {r : Relation} {n : String}
    (h : t.firstAnswer b ((Walk.layers t.successors (limit + 1) (a :: b :: avoiding) [a]).take
      limit) = some (r, n, d)) :
    t.Foremost a b avoiding n d ∧ d ≤ limit ∧ t.Known n b r := by
  obtain ⟨i, hi, rfl, hr, ⟨x, y, hxy, hx⟩, hearlier⟩ := exists_of_firstAnswer h
  have hil : i < limit := by
    rw [List.length_take] at hi
    omega
  have hlimit : i < limit + 1 := by omega
  rw [getD_take hil] at hxy
  have hdepth : t.Depth a b avoiding n (i + 1) := (mem_layer_iff hlimit).mp (by rw [hxy]; simp)
  refine ⟨⟨hdepth, ⟨r, resolve_eq_some_iff.mp hr⟩, fun m j hm hknown => ?_, ?_⟩, by omega,
    resolve_eq_some_iff.mp hr⟩
  · -- nothing is known of a node of an earlier layer
    by_contra hlt
    obtain ⟨j, rfl⟩ := hm.exists_succ
    have hmem := (mem_layer_iff (by omega : j < limit + 1)).mpr hm
    rw [← getD_take (by omega : j < limit)] at hmem
    obtain ⟨s, hs⟩ := hknown
    exact resolve_eq_none_iff.mp (hearlier j (by omega) m hmem) s hs
  · -- the first path to `n` comes before those to the nodes after `n`
    obtain ⟨p, hp, hplen, hfirst⟩ :=
      Walk.exists_first_route t.place (depth_iff.mp hdepth).2.reached
    refine ⟨p, path_iff_route.mpr hp, hplen, fun m q hm hknown hq hqlen hlex => ?_⟩
    have hmem := (mem_layer_iff hlimit).mpr hm
    rw [hxy, List.mem_append, List.mem_cons] at hmem
    rcases hmem with hmem | rfl | hmem
    · obtain ⟨s, hs⟩ := hknown
      exact resolve_eq_none_iff.mp (hx m hmem) s hs
    · exact hfirst q (path_iff_route.mp hq) hqlen hlex
    · obtain ⟨p', hp', hplen', hlex'⟩ := exists_path_before hlimit hxy hmem hq hqlen
      exact hfirst p' (path_iff_route.mp hp') hplen' (List.lex_trans Nat.lt_trans hlex' hlex)

lemma not_known_of_firstAnswer {t : Table} {a b : String} {avoiding : List String} {limit : ℕ}
    (h : t.firstAnswer b ((Walk.layers t.successors (limit + 1) (a :: b :: avoiding) [a]).take
      limit) = none) {n : String} {k : ℕ} (hn : t.Depth a b avoiding n k) (hk : k ≤ limit)
    (r : Relation) : ¬t.Known n b r := by
  obtain ⟨i, rfl⟩ := hn.exists_succ
  have hmem := (mem_layer_iff (by omega : i < limit + 1)).mpr hn
  rw [← getD_take (by omega : i < limit)] at hmem
  exact resolve_eq_none_iff.mp (resolve_eq_none_of_firstAnswer h hmem) r

lemma lt_length_layers_iff {t : Table} {a b : String} {avoiding : List String} {limit : ℕ} :
    limit < (Walk.layers t.successors (limit + 1) (a :: b :: avoiding) [a]).length ↔
      ∃ n, t.Depth a b avoiding n (limit + 1) := by
  rw [Walk.lt_length_layers_iff t.pairwise_successors List.mem_cons_self (by omega)]
  simp only [depth_iff]
  exact ⟨fun ⟨n, hn⟩ => ⟨n, by omega, hn⟩, fun ⟨n, hn⟩ => ⟨n, hn.2⟩⟩

/-! ### The search and the reference -/

/-- The search comes to what the reference says. -/
lemma compares_tryCompareAvoiding (t : Table) (limit : UInt64) (a b : String)
    (avoiding : List String) :
    t.Compares limit a b avoiding (t.tryCompareAvoiding limit a b avoiding) := by
  unfold tryCompareAvoiding search
  cases hr : t.resolve a b with
  | some r => exact .direct (resolve_eq_some_iff.mp hr)
  | none =>
    have hno := resolve_eq_none_iff.mp hr
    by_cases hid : a ∈ t.ids ∧ b ∈ t.ids
    · obtain ⟨ha, hb⟩ := hid
      simp only [ha, hb, and_self, if_true]
      cases hf : t.firstAnswer b ((Walk.layers t.successors (limit.toNat + 1)
          (a :: b :: avoiding) [a]).take limit.toNat) with
      | some answer =>
        obtain ⟨r, n, d⟩ := answer
        obtain ⟨hn, hd, hknown⟩ := foremost_of_firstAnswer hf
        exact .via hno ha hb hn hd hknown
      | none =>
        have hnot := fun n k hn hk => not_known_of_firstAnswer (n := n) (k := k) hf hn hk
        by_cases hlen : limit.toNat < (Walk.layers t.successors (limit.toNat + 1)
            (a :: b :: avoiding) [a]).length
        · simp only [hlen, if_true]
          exact .undecided hno ha hb hnot (lt_length_layers_iff.mp hlen)
        · simp only [hlen, if_false]
          exact .unrelated hno ha hb hnot fun hd => hlen (lt_length_layers_iff.mpr hd)
    · simp only [hid, if_false]
      exact .unknown hno (by tauto)

lemma Compares.unique {t : Table} {limit : UInt64} {a b : String} {avoiding : List String}
    {x y : Except Fault Relation} (hx : t.Compares limit a b avoiding x)
    (hy : t.Compares limit a b avoiding y) : x = y := by
  cases hx with
  | direct hr =>
    cases hy with
    | direct hs => rw [hr.unique hs]
    | unknown h | via h | undecided h | unrelated h => exact absurd hr (h _)
  | unknown h hid =>
    cases hy with
    | direct hs => exact absurd hs (h _)
    | unknown => rfl
    | via _ ha hb | undecided _ ha hb | unrelated _ ha hb =>
      exact absurd ⟨ha, hb⟩ (not_and_or.mpr hid)
  | via h ha hb hn hk hr =>
    cases hy with
    | direct hs => exact absurd hs (h _)
    | unknown _ hid => exact absurd ⟨ha, hb⟩ (not_and_or.mpr hid)
    | via _ _ _ hm _ hs =>
      obtain ⟨rfl, -⟩ := hn.unique hm
      rw [hr.unique hs]
    | undecided _ _ _ hno | unrelated _ _ _ hno => exact absurd hr (hno _ _ hn.depth hk _)
  | undecided h ha hb hno hd =>
    cases hy with
    | direct hs => exact absurd hs (h _)
    | unknown _ hid => exact absurd ⟨ha, hb⟩ (not_and_or.mpr hid)
    | via _ _ _ hm hk hs => exact absurd hs (hno _ _ hm.depth hk _)
    | undecided => rfl
    | unrelated _ _ _ _ hd' => exact absurd hd hd'
  | unrelated h ha hb hno hd =>
    cases hy with
    | direct hs => exact absurd hs (h _)
    | unknown _ hid => exact absurd ⟨ha, hb⟩ (not_and_or.mpr hid)
    | via _ _ _ hm hk hs => exact absurd hs (hno _ _ hm.depth hk _)
    | undecided _ _ _ _ hd' => exact absurd hd' hd
    | unrelated => rfl

theorem tryCompareAvoiding_eq_iff_compares {t : Table} {limit : UInt64} {a b : String}
    {avoiding : List String} {x : Except Fault Relation} :
    t.tryCompareAvoiding limit a b avoiding = x ↔ t.Compares limit a b avoiding x :=
  ⟨fun h => h ▸ t.compares_tryCompareAvoiding limit a b avoiding,
    (t.compares_tryCompareAvoiding limit a b avoiding).unique⟩

lemma Known.compareAvoiding {t : Table} {limit : UInt64} {a b : String}
    {avoiding : List String} {r : Relation} (h : t.Known a b r) :
    t.compareAvoiding limit a b avoiding = r := by
  rw [Table.compareAvoiding, search, resolve_eq_some_iff.mpr h]
  rfl

lemma compares_of_compareAvoiding {t : Table} {limit : UInt64} {a b : String}
    {avoiding : List String} {r : Relation} (hr : r ≠ .equal)
    (h : t.compareAvoiding limit a b avoiding = r) : t.Compares limit a b avoiding (.ok r) := by
  refine tryCompareAvoiding_eq_iff_compares.mp (tryCompareAvoiding_eq_ok_iff.mpr ⟨?_, h⟩)
  intro hu
  rw [compareAvoiding, hu] at h
  exact hr h.symm

end Table

namespace Graph

variable {ν : Type}

/-- **What a comparison comes to**: what is known at once, or of the foremost node within the
limit, or else a fault if there are nodes just beyond the limit and a level answer if not. The
lenient comparison reads a fault as level. -/
theorem compares_iff (g : Graph ν) (a b : String) (avoiding : List String) :
    (∀ x, g.tryCompareAvoiding a b avoiding = x ↔
      g.table.Compares g.maxDepth a b avoiding x) ∧
    g.compareAvoiding a b avoiding =
      match g.tryCompareAvoiding a b avoiding with
      | .ok r => r
      | .error _ => .equal := by
  refine ⟨fun x => Table.tryCompareAvoiding_eq_iff_compares, ?_⟩
  unfold compareAvoiding tryCompareAvoiding Table.compareAvoiding Table.tryCompareAvoiding
  cases g.table.search g.maxDepth a b avoiding <;> rfl

-- of `u` and `v`, as near to `a` as each other, the one that came first answers unless avoided
example :
    let g := (ofNodes ([] : List String)).run
      [.record ⟨"a", .less, "u"⟩, .record ⟨"a", .less, "v"⟩, .record ⟨"u", .greater, "b"⟩,
        .record ⟨"v", .less, "b"⟩]
    g.tryCompareAvoiding "a" "b" [] = .ok .greater ∧
      g.tryCompareAvoiding "a" "b" ["u"] = .ok .less := by
  decide

end Graph

end RuleOrder
