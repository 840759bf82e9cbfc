import Mathlib.Data.List.Infix
import RuleOrder.Proofs.Ordering

/-!
Chains of ids.

A chain says of each of its ids that it comes right before the next. When nothing else is known
of any id, the table holds these facts from both of their sides, in whatever order they came in.
The walk of a comparison goes up the chain only, so an id compares as coming after another just
when it is the next one.
-/

namespace RuleOrder

/-- The height of a node in a chain. -/
def height {ν : Type} [Identified ν] (chain : List String) (x : ν) : ℕ :=
  chain.idxOf (Identified.id x)

/-! ### Two ids of a chain -/

section Pairs

variable {chain : List String} {a b : String}

lemma pair_infix_iff_idxOf (h : chain.Nodup) :
    [a, b] <:+: chain ↔ a ∈ chain ∧ b ∈ chain ∧ chain.idxOf b = chain.idxOf a + 1 := by
  constructor
  · intro hab
    obtain ⟨k, hk, hget⟩ := List.infix_iff_getElem?.mp hab
    obtain ⟨hka, ha⟩ := List.getElem?_eq_some_iff.mp (hget 0 (by simp))
    obtain ⟨hkb, hb⟩ := List.getElem?_eq_some_iff.mp (hget 1 (by simp))
    have hidxa : chain.idxOf a = 0 + k := by
      rw [← h.idxOf_getElem (0 + k) hka, ha, List.getElem_cons_zero]
    have hidxb : chain.idxOf b = 1 + k := by
      rw [← h.idxOf_getElem (1 + k) hkb, hb, List.getElem_cons_succ, List.getElem_cons_zero]
    exact ⟨hab.subset (by simp), hab.subset (by simp), by omega⟩
  · rintro ⟨ha, hb, hidx⟩
    have hlt := List.idxOf_lt_length_iff.mpr hb
    refine List.infix_iff_getElem?.mpr ⟨chain.idxOf a, ?_, fun i hi => ?_⟩
    · simp only [List.length_cons, List.length_nil]
      omega
    · obtain rfl | rfl : i = 0 ∨ i = 1 := by
        simp only [List.length_cons, List.length_nil] at hi
        omega
      · simpa using List.getElem?_idxOf ha
      · rw [Nat.add_comm, ← hidx]
        exact List.getElem?_idxOf hb

lemma idxOf_lt_of_pair_sublist (h : chain.Nodup) (hab : [a, b].Sublist chain) :
    chain.idxOf a < chain.idxOf b := by
  have hp := (Table.pairwise_idxOf h).sublist hab
  simpa using hp

lemma pair_sublist_iff_idxOf (h : chain.Nodup) (ha : a ∈ chain) (hb : b ∈ chain) :
    [a, b].Sublist chain ↔ chain.idxOf a < chain.idxOf b := by
  refine ⟨idxOf_lt_of_pair_sublist h, fun hidx => ?_⟩
  have hne : a ≠ b := by
    rintro rfl
    omega
  refine (sublist_or_exists_append ha hb hne).resolve_right ?_
  rintro ⟨l, m, r, heq⟩
  have hba : [b, a].Sublist chain := by
    have hab : [b, a].Sublist (b :: m ++ a :: r) :=
      (List.singleton_sublist.mpr (by simp)).cons_cons b
    rw [heq, List.append_assoc]
    exact hab.trans (List.sublist_append_right l _)
  have hlt := idxOf_lt_of_pair_sublist h hba
  omega

end Pairs

/-! ### Facts that do not deny each other -/

/-- No two sides of these facts relate two ids differently. -/
def Unanimous (fs : List Fact) : Prop :=
  ∀ f ∈ fs, ∀ f' ∈ fs, ∀ p ∈ f.sides, ∀ q ∈ f'.sides,
    p.subject = q.subject → p.object = q.object → p.relation = q.relation

namespace Table

variable {t : Table} {f : Fact} {a b : String} {r : Relation}

lemma relation_record_eq_some (h : (t.record f).relation a b = some r) :
    ⟨a, r, b⟩ ∈ f.sides ∨ t.relation a b = some r := by
  rw [relation_record] at h
  split_ifs at h with hconv hown
  · obtain ⟨hs, rfl, rfl⟩ := hconv
    cases h
    exact Or.inl (Fact.mem_sides.mpr (Or.inr ⟨hs, rfl⟩))
  · obtain ⟨rfl, rfl⟩ := hown
    cases h
    exact Or.inl (Fact.mem_sides.mpr (Or.inl rfl))
  · exact Or.inr h

lemma isSome_relation_record (h : ⟨a, r, b⟩ ∈ f.sides ∨ t.relation a b = some r) :
    ((t.record f).relation a b).isSome = true := by
  rw [relation_record]
  split_ifs with hconv hown
  · rfl
  · rfl
  · rcases h with h | h
    · rcases Fact.mem_sides.mp h with heq | ⟨hs, heq⟩
      · exact absurd ⟨congrArg Fact.subject heq, congrArg Fact.object heq⟩ hown
      · exact absurd ⟨hs, congrArg Fact.subject heq, congrArg Fact.object heq⟩ hconv
    · rw [h]
      rfl

/-! ### Facts in turn -/

def recordAll (t : Table) (fs : List Fact) : Table := fs.foldl record t

lemma recordAll_snoc (t : Table) (fs : List Fact) (f : Fact) :
    t.recordAll (fs ++ [f]) = (t.recordAll fs).record f :=
  List.foldl_append

lemma exists_side_of_relation_recordAll {fs : List Fact}
    (h : ((∅ : Table).recordAll fs).relation a b = some r) : ∃ f ∈ fs, ⟨a, r, b⟩ ∈ f.sides := by
  induction fs using List.reverseRecOn with
  | nil => cases h
  | append_singleton fs f ih =>
    rw [recordAll_snoc] at h
    rcases relation_record_eq_some h with h | h
    · exact ⟨f, by simp, h⟩
    · obtain ⟨f', hf', hside⟩ := ih h
      exact ⟨f', List.mem_append_left _ hf', hside⟩

lemma isSome_relation_recordAll {fs : List Fact} (hf : f ∈ fs) (h : ⟨a, r, b⟩ ∈ f.sides) :
    (((∅ : Table).recordAll fs).relation a b).isSome = true := by
  induction fs using List.reverseRecOn with
  | nil => cases hf
  | append_singleton fs f' ih =>
    rw [recordAll_snoc]
    rcases List.mem_append.mp hf with hf | hf
    · obtain ⟨r', hr'⟩ := Option.isSome_iff_exists.mp (ih hf)
      exact isSome_relation_record (Or.inr hr')
    · obtain rfl := List.mem_singleton.mp hf
      exact isSome_relation_record (Or.inl h)

/-- **Facts that do not deny each other are all kept**, each from its sides, in whatever order
they are taken in. -/
theorem relation_recordAll_iff {fs : List Fact} (hfs : Unanimous fs) :
    ((∅ : Table).recordAll fs).relation a b = some r ↔ ∃ f ∈ fs, ⟨a, r, b⟩ ∈ f.sides := by
  refine ⟨exists_side_of_relation_recordAll, ?_⟩
  rintro ⟨f, hf, hside⟩
  obtain ⟨r', hr'⟩ := Option.isSome_iff_exists.mp (isSome_relation_recordAll hf hside)
  obtain ⟨f', hf', hside'⟩ := exists_side_of_relation_recordAll hr'
  have heq : r' = r := hfs f' hf' f hf ⟨a, r', b⟩ hside' ⟨a, r, b⟩ hside rfl rfl
  rw [hr', heq]

lemma weightless_recordAll {fs : List Fact} (hfs : ∀ f ∈ fs, f.relation.isStrict = true) :
    ((∅ : Table).recordAll fs).Weightless := by
  induction fs using List.reverseRecOn with
  | nil => exact fun _ => rfl
  | append_singleton fs f ih =>
    rw [recordAll_snoc]
    refine Weightless.record (ih fun f' hf' => hfs f' (List.mem_append_left _ hf')) ?_
    exact hfs f (by simp)

end Table

/-! ### What a chain says -/

/-- Each id of the list comes right before the next. -/
def links : List String → List Fact
  | a :: b :: rest => ⟨a, .less, b⟩ :: links (b :: rest)
  | _ => []

lemma mem_links {chain : List String} {f : Fact} :
    f ∈ links chain ↔ f.relation = .less ∧ [f.subject, f.object] <:+: chain := by
  fun_induction links chain with
  | case1 a b rest ih =>
    have hsplit : [f.subject, f.object] <:+: a :: b :: rest ↔
        [f.subject, f.object] <+: a :: b :: rest ∨ [f.subject, f.object] <:+: b :: rest :=
      List.infix_cons_iff
    rw [List.mem_cons, ih, hsplit, and_or_left]
    refine or_congr_left ?_
    obtain ⟨s, r, o⟩ := f
    simp only [Fact.mk.injEq, List.cons_prefix_cons, List.nil_prefix, and_true]
    exact and_left_comm
  | case2 chain h =>
    rcases chain with _ | ⟨a, _ | ⟨b, rest⟩⟩
    · simp
    · simp [List.infix_cons_iff]
    · exact absurd rfl (h a b rest)

lemma exists_side_links_iff {chain : List String} {a b : String} {r : Relation} :
    (∃ f ∈ links chain, ⟨a, r, b⟩ ∈ f.sides) ↔
      r = .less ∧ [a, b] <:+: chain ∨ r = .greater ∧ [b, a] <:+: chain := by
  constructor
  · rintro ⟨⟨x, s, y⟩, hf, hside⟩
    obtain ⟨rfl, hxy⟩ := mem_links.mp hf
    rcases Fact.mem_sides.mp hside with heq | ⟨-, heq⟩
    · cases heq
      exact Or.inl ⟨rfl, hxy⟩
    · cases heq
      exact Or.inr ⟨rfl, hxy⟩
  · rintro (⟨rfl, hab⟩ | ⟨rfl, hba⟩)
    · exact ⟨⟨a, .less, b⟩, mem_links.mpr ⟨rfl, hab⟩, Fact.mem_sides.mpr (Or.inl rfl)⟩
    · exact ⟨⟨b, .less, a⟩, mem_links.mpr ⟨rfl, hba⟩, Fact.mem_sides.mpr (Or.inr ⟨rfl, rfl⟩)⟩

lemma unanimous_of_sides_links {chain : List String} (h : chain.Nodup) {fs : List Fact}
    (hfs : ∀ p, (∃ f ∈ fs, p ∈ f.sides) → ∃ f ∈ links chain, p ∈ f.sides) : Unanimous fs := by
  rintro f hf f' hf' ⟨a, r, b⟩ hp ⟨a', r', b'⟩ hq rfl rfl
  have hno : [a, b] <:+: chain → ¬[b, a] <:+: chain := fun hab hba => by
    have h₁ := ((pair_infix_iff_idxOf h).mp hab).2.2
    have h₂ := ((pair_infix_iff_idxOf h).mp hba).2.2
    omega
  have hf := exists_side_links_iff.mp (hfs _ ⟨f, hf, hp⟩)
  have hf' := exists_side_links_iff.mp (hfs _ ⟨f', hf', hq⟩)
  rcases hf with ⟨rfl, h₁⟩ | ⟨rfl, h₁⟩ <;> rcases hf' with ⟨rfl, h₂⟩ | ⟨rfl, h₂⟩
  · rfl
  · exact absurd h₂ (hno h₁)
  · exact absurd h₁ (hno h₂)
  · rfl

namespace Table

/-- Nothing is known of any id but what a chain says. -/
structure Chained (t : Table) (chain : List String) : Prop where
  weightless : t.Weightless
  less_iff : ∀ a b, t.relation a b = some .less ↔ [a, b] <:+: chain
  greater_iff : ∀ a b, t.relation a b = some .greater ↔ [b, a] <:+: chain
  not_level : ∀ a b, t.relation a b ≠ some .equal

/-- Facts with the sides of the links of a chain, taken in in any order, say what the chain says
and no more. -/
theorem chained_recordAll_of_sides {chain : List String} (h : chain.Nodup) {fs : List Fact}
    (hfs : ∀ p, (∃ f ∈ fs, p ∈ f.sides) ↔ ∃ f ∈ links chain, p ∈ f.sides) :
    ((∅ : Table).recordAll fs).Chained chain := by
  have hiff : ∀ a b r, ((∅ : Table).recordAll fs).relation a b = some r ↔
      r = .less ∧ [a, b] <:+: chain ∨ r = .greater ∧ [b, a] <:+: chain := by
    intro a b r
    rw [relation_recordAll_iff (unanimous_of_sides_links h fun p => (hfs p).mp), hfs,
      exists_side_links_iff]
  refine ⟨weightless_recordAll fun f hf => ?_, fun a b => by simp [hiff],
    fun a b => by simp [hiff], fun a b => by simp [hiff]⟩
  have hside : ∃ f' ∈ links chain, f ∈ f'.sides :=
    (hfs f).mp ⟨f, hf, Fact.mem_sides.mpr (Or.inl rfl)⟩
  rcases exists_side_links_iff.mp hside with ⟨hr, -⟩ | ⟨hr, -⟩ <;> rw [hr] <;> rfl

theorem chained_recordAll {chain : List String} (h : chain.Nodup) {fs : List Fact}
    (hfs : fs.Perm (links chain)) : ((∅ : Table).recordAll fs).Chained chain :=
  chained_recordAll_of_sides h fun p => by simp only [hfs.mem_iff]

/-- **Coming after is seen over one step only**: the walk up the chain from an id meets no id
that is right after one below the start. -/
theorem Chained.compareAvoiding_eq_greater_iff {t : Table} {chain : List String}
    (h : t.Chained chain) (hchain : chain.Nodup) {limit : UInt64} {a b : String} (hne : a ≠ b) :
    t.compareAvoiding limit a b [] = .greater ↔ [b, a] <:+: chain := by
  rw [← h.greater_iff]
  refine ⟨fun hgreater => ?_, h.weightless.compareAvoiding_of_relation⟩
  cases compares_of_compareAvoiding (by decide) hgreater with
  | direct hr => rwa [← h.weightless.resolve_eq, resolve_eq_some_iff]
  | @via n k _ _ _ _ hn _ hr =>
    -- the walk comes to `n` from the id right before it, and so from `b` itself
    exfalso
    have hbn : [b, n] <:+: chain := by
      rwa [← h.greater_iff, ← h.weightless.resolve_eq, resolve_eq_some_iff]
    obtain ⟨i, rfl⟩ := hn.depth.exists_succ
    obtain ⟨u, hu, hun, -⟩ := (depth_iff.mp hn.depth).2.exists_pred
    have hub : u = b := by
      have hun' := (h.less_iff u n).mp (mem_successors.mp hun)
      obtain ⟨hmem, -, h₁⟩ := (pair_infix_iff_idxOf hchain).mp hun'
      have h₂ := ((pair_infix_iff_idxOf hchain).mp hbn).2.2
      exact (List.idxOf_inj hmem).mp (by omega)
    subst hub
    rcases i with _ | i
    · exact hne (Walk.atDepth_zero_iff.mp hu).symm
    · obtain ⟨-, -, -, hbarred⟩ := hu.exists_pred
      exact hbarred (by simp)

end Table

end RuleOrder
