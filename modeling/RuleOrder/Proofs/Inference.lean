import RuleOrder.Proofs.Precedence

/-!
Where answers are exactly the paths.

The walk of a comparison gives the first relation that it meets against the second id, whatever
it says. Where no id on the way is written to come after the second one, all that the walk can
meet is the last step of a path to it. Then the answer is that the first id comes first just
when there is a path that is short enough, and it is level when there is none.
-/

namespace RuleOrder

namespace Table

variable {t : Table} {a b n : String} {avoiding p : List String} {limit : UInt64}

/-- `n` is `a`, or comes after it on a path that keeps clear of `b`. -/
def Around (t : Table) (b a n : String) : Prop :=
  Relation.ReflTransGen (fun u v => t.relation u v = some .less ∧ v ≠ b) a n

/-- What is written against `b` for the ids on the way from `a` says that they come first. -/
def Unopposed (t : Table) (a b : String) : Prop :=
  ∀ n r, t.Around b a n → t.relation n b = some r → r = .less

lemma Path.around (h : t.Path a b avoiding p n) : t.Around b a n := by
  induction h with
  | start => exact .refl
  | step _ hv hb ih =>
    refine ih.tail ⟨hv, fun hvb => hb ?_⟩
    rw [hvb]
    exact List.mem_cons_of_mem a List.mem_cons_self

/-! ### Paths that pass neither end -/

lemma Between.fst_mem_ids (h : t.Between a b p) : a ∈ t.ids := by
  unfold Between at h
  rcases p with _ | ⟨v, p⟩ <;> exact mem_ids_of_relation (List.isChain_cons_cons.mp h).1

lemma Between.left {l r : List String} {x : String} (h : t.Between a b (l ++ x :: r)) :
    t.Between a x l := by
  refine List.IsChain.infix h ⟨[], r ++ [b], ?_⟩
  simp

lemma Between.right {l r : List String} {x : String} (h : t.Between a b (l ++ x :: r)) :
    t.Between x b r := by
  refine List.IsChain.infix h ⟨a :: l, [], ?_⟩
  simp

lemma Between.exists_clear (h : t.Between a b p) :
    ∃ q, t.Between a b q ∧ q.length ≤ p.length ∧ ∀ v ∈ q, v ∉ [a, b] := by
  induction hk : p.length using Nat.strong_induction_on generalizing p with
  | _ k ih =>
    by_cases hclear : ∀ v ∈ p, v ∉ [a, b]
    · exact ⟨p, h, hk.le, hclear⟩
    · push Not at hclear
      obtain ⟨v, hv, hend⟩ := hclear
      obtain ⟨l, r, rfl⟩ := List.append_of_mem hv
      rw [List.length_append, List.length_cons] at hk
      -- the part after `a`, or the part before `b`, is a shorter path
      have hshort : ∃ q, t.Between a b q ∧ q.length < k := by
        rcases List.mem_pair.mp hend with rfl | rfl
        · exact ⟨r, h.right, by omega⟩
        · exact ⟨l, h.left, by omega⟩
      obtain ⟨q, hq, hlt⟩ := hshort
      obtain ⟨q', hq', hle, hclear⟩ := ih q.length hlt hq rfl
      exact ⟨q', hq', by omega, hclear⟩

lemma Between.path {c : String} (h : t.Between a c p) (hclear : ∀ v ∈ p, v ∉ a :: b :: avoiding) :
    ∃ n, t.Path a b avoiding p n ∧ t.relation n c = some .less := by
  induction p using List.reverseRecOn generalizing c with
  | nil => exact ⟨a, .start, (List.isChain_cons_cons.mp h).1⟩
  | append_singleton p v ih =>
    rw [Between, List.append_assoc, ← List.cons_append, List.singleton_append,
      List.isChain_split] at h
    obtain ⟨hp, hlast⟩ := h
    obtain ⟨u, hu, huv⟩ := ih hp fun w hw => hclear w (List.mem_append_left _ hw)
    exact ⟨v, hu.step huv (hclear v (by simp)), (List.isChain_cons_cons.mp hlast).1⟩

lemma Between.exists_path (h : t.Between a b p) :
    ∃ q n, t.Path a b [] q n ∧ q.length ≤ p.length ∧ t.relation n b = some .less := by
  obtain ⟨q, hq, hle, hclear⟩ := h.exists_clear
  obtain ⟨n, hn, hnb⟩ := hq.path hclear
  exact ⟨q, n, hn, hle, hnb⟩

/-! ### Answers and paths -/

/-- On the way from `a` the walk meets the end of every path that is short enough, and nothing
else that is written against `b`. -/
lemma Weightless.eq_less_of_compares (h : t.Weightless) (hclear : t.Unopposed a b)
    (hb : b ∈ t.ids) (hp : t.Between a b p) (hlen : p.length ≤ limit.toNat)
    {x : Except Fault Relation} (hx : t.Compares limit a b [] x) : x = .ok .less := by
  obtain ⟨q, n, hq, hle, hn⟩ := hp.exists_path
  have hfound : (∀ r, ¬t.Known a b r) →
      ¬∀ n k, t.Depth a b [] n k → k ≤ limit.toNat → ∀ r, ¬t.Known n b r := by
    intro hno hnone
    obtain ⟨k, hk, hdepth⟩ := (path_iff_route.mp hq).exists_atDepth
    rcases k with _ | k
    · rw [Walk.atDepth_zero_iff.mp hdepth] at hn
      exact hno .less (h.known_iff.mpr hn)
    · exact hnone n (k + 1) (depth_iff.mpr ⟨by omega, hdepth⟩) (by omega) .less (h.known_iff.mpr hn)
  cases hx with
  | direct hr => rw [hclear a _ .refl (h.known_iff.mp hr)]
  | unknown _ hid => exact absurd ⟨hp.fst_mem_ids, hb⟩ (not_and_or.mpr hid)
  | via _ _ _ hm _ hr =>
    obtain ⟨q', hq', -⟩ := hm.first
    rw [hclear _ _ hq'.around (h.known_iff.mp hr)]
  | undecided hno _ _ hnone | unrelated hno _ _ hnone => exact absurd hnone (hfound hno)

/-- **Where nothing on the way says otherwise, `a` comes first just when a path says so** that
has at most one step more than the limit allows. -/
theorem Weightless.compareAvoiding_eq_less_iff (h : t.Weightless) (hclear : t.Unopposed a b)
    (hb : b ∈ t.ids) :
    t.compareAvoiding limit a b [] = .less ↔
      ∃ p, t.Between a b p ∧ p.length ≤ limit.toNat := by
  constructor
  · intro hless
    obtain ⟨p, hp, hlen, -⟩ := h.exists_between_le hless
    exact ⟨p, hp, hlen⟩
  · rintro ⟨p, hp, hlen⟩
    have hcmp := t.compares_tryCompareAvoiding limit a b []
    have hok := h.eq_less_of_compares hclear hb hp hlen hcmp
    exact (tryCompareAvoiding_eq_ok_iff.mp hok).2

lemma Weightless.compareAvoiding_ne_greater (h : t.Weightless) (hclear : t.Unopposed a b) :
    t.compareAvoiding limit a b avoiding ≠ .greater := by
  intro hgreater
  obtain ⟨p, n, hp, -, hn⟩ := h.exists_path (by decide) hgreater
  cases hclear n .greater hp.around hn

/-! ### Strict facts alone -/

/-- The table of strict facts that do not deny each other. -/
structure Strict (t : Table) : Prop extends Coherent t where
  weightless : t.Weightless
  not_level : ∀ a b, t.relation a b ≠ some .equal

lemma strict_empty : (∅ : Table).Strict := ⟨coherent_empty, fun _ => rfl, by simp⟩

lemma Strict.record (h : t.Strict) {f : Fact} (hs : f.relation.isStrict = true)
    (hf : t.refusal? f = none) : (t.record f).Strict := by
  refine ⟨h.toCoherent.record hf, h.weightless.record hs, fun a b => ?_⟩
  rw [relation_record]
  split_ifs
  · obtain ⟨s, r, o⟩ := f
    cases r <;> simp_all [Relation.isStrict, Relation.inverse]
  · rw [Ne, Option.some.injEq]
    exact Relation.isStrict_iff.mp hs
  · exact h.not_level a b

lemma Strict.unopposed (h : t.Strict)
    (hclear : ∀ n, t.Around b a n → t.relation b n ≠ some .less) : t.Unopposed a b := by
  intro n r hn hr
  cases r with
  | less => rfl
  | equal => exact absurd hr (h.not_level n b)
  | greater => exact absurd (h.inverse n b .greater hr rfl) (hclear n hn)

end Table

namespace Graph

variable {ν : Type} [Identified ν]

lemma strict_run {g : Graph ν} (hg : g.Made) {fs : List Fact}
    (hfs : ∀ f ∈ fs, f.relation.isStrict = true) :
    (g.run (fs.map .tryRecord)).table.Strict := by
  refine run_tryRecord_induction ?_ (fun t f ht hs hf => ht.record hs hf) hfs
  rw [hg.table_eq]
  exact Table.strict_empty

/-- **When an answer is exact**: in a graph of strict facts alone, each taken in with care, let `b`
be a known id that is written to come before neither `a` nor any id to which `a` leads without
passing `b`. Then `a` compares as coming first just when there is a path from `a` to `b` of at
most one step more than the depth of the graph, and as level when there is none. -/
theorem compare_iff_between {g₀ g : Graph ν} (h₀ : g₀.Made) {fs : List Fact}
    (hfs : ∀ f ∈ fs, f.relation.isStrict = true) (hg : g₀.run (fs.map .tryRecord) = g)
    {a b : String} (hb : b ∈ g.table.ids)
    (hclear : ∀ n, g.table.Around b a n → g.table.relation b n ≠ some .less) :
    (g.compare a b = .less ↔
      ∃ p, g.table.Between a b p ∧ p.length + 1 ≤ g.maxDepth.toNat + 1) ∧
    ((¬∃ p, g.table.Between a b p ∧ p.length + 1 ≤ g.maxDepth.toNat + 1) →
      g.compare a b = .equal) := by
  have hstrict : g.table.Strict := hg ▸ strict_run h₀ hfs
  have hway := hstrict.unopposed hclear
  have hiff : g.compare a b = .less ↔
      ∃ p, g.table.Between a b p ∧ p.length + 1 ≤ g.maxDepth.toNat + 1 := by
    simp only [Nat.add_le_add_iff_right]
    exact hstrict.weightless.compareAvoiding_eq_less_iff hway hb
  refine ⟨hiff, fun hno => ?_⟩
  have hless : g.compare a b ≠ .less := fun hless => hno (hiff.mp hless)
  have hgreater : g.compare a b ≠ .greater :=
    hstrict.weightless.compareAvoiding_ne_greater hway
  cases hcmp : g.compare a b with
  | less => exact absurd hcmp hless
  | equal => rfl
  | greater => exact absurd hcmp hgreater

/-- Three steps from `a` to `d`, one of them said from its other side. -/
def threeFacts : List Fact :=
  [⟨"a", .less, "b"⟩, ⟨"c", .greater, "b"⟩, ⟨"c", .less, "d"⟩]

def ofThreeFacts (depth : UInt64) : Graph String :=
  (withDepth [] depth).run (threeFacts.map .tryRecord)

/-- Over three steps a graph of depth two infers, and one of depth one does not. -/
theorem compare_of_threeFacts :
    (∀ f ∈ threeFacts, f.relation.isStrict = true) ∧
    (ofThreeFacts 2).table.Between "a" "d" ["b", "c"] ∧
    (ofThreeFacts 2).compare "a" "d" = .less ∧
    (∀ p, (ofThreeFacts 1).table.Between "a" "d" p → 1 < p.length) ∧
    (ofThreeFacts 1).compare "a" "d" = .equal := by
  have hfs : ∀ f ∈ threeFacts, f.relation.isStrict = true := by decide
  have hclear : ∀ depth, (ofThreeFacts depth).table.successors "d" = [] →
      ∀ n, (ofThreeFacts depth).table.Around "d" "a" n →
        (ofThreeFacts depth).table.relation "d" n ≠ some .less := by
    intro depth hnone n _ hn
    rw [← Table.mem_successors, hnone] at hn
    cases hn
  have hbetween : (ofThreeFacts 2).table.Between "a" "d" ["b", "c"] := by
    unfold Table.Between
    decide
  obtain ⟨htwo, -⟩ := compare_iff_between (g := ofThreeFacts 2) (.withDepth [] 2) hfs rfl
    (by decide) (hclear 2 (by decide))
  obtain ⟨hone, hlevel⟩ := compare_iff_between (g := ofThreeFacts 1) (.withDepth [] 1) hfs rfl
    (by decide) (hclear 1 (by decide))
  have hno : ¬(ofThreeFacts 1).compare "a" "d" = .less := by decide
  refine ⟨hfs, hbetween, htwo.mpr ⟨["b", "c"], hbetween, by decide⟩, fun p hp => ?_,
    hlevel fun h => hno (hone.mpr h)⟩
  by_contra hlen
  have hdepth : (ofThreeFacts 1).maxDepth.toNat = 1 := by decide
  exact hno (hone.mpr ⟨p, hp, by omega⟩)

end Graph

end RuleOrder
