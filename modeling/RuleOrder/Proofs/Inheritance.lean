import Mathlib.Logic.Function.Iterate
import Mathlib.Logic.Relation
import RuleOrder.Proofs.Reached

/-!
What following equalities comes to.

Ids are alike when equalities lead from one to the other, read either way. However often the
equalities are followed, a strict relation is written only between ids that are alike to two of
which the relation was known before, from one side or the other. All else stays: the ids, their
weights and what was said of them, the places of the peers of an id, and that a relation is
strict, though not which of the two it is.
-/

namespace RuleOrder

namespace Table

variable {t u v : Table} {f : Fact}

/-! ### Ids that are alike -/

def Alike (t : Table) : String → String → Prop :=
  Relation.EqvGen fun a b => (a, b) ∈ t.equalities

/-- The fact is known of ids that are alike to its own, from one of its sides. -/
def Bears (t : Table) (f : Fact) : Prop :=
  ∃ x y, t.Alike x f.subject ∧ t.Alike y f.object ∧
    (t.relation x y = some f.relation ∨ t.relation y x = some f.relation.inverse)

lemma bears_of_relation {a b : String} {r : Relation} (h : t.relation a b = some r) :
    t.Bears ⟨a, r, b⟩ :=
  ⟨a, b, .refl a, .refl b, Or.inl h⟩

lemma Bears.converse (h : t.Bears f) : t.Bears f.converse := by
  obtain ⟨x, y, hx, hy, hxy⟩ := h
  refine ⟨y, x, hy, hx, hxy.symm.imp_right fun hr => ?_⟩
  rw [Fact.converse, Relation.inverse_inverse]
  exact hr

lemma Bears.congr_left {a b c : String} {r : Relation} (h : t.Bears ⟨a, r, c⟩)
    (hab : t.Alike a b) : t.Bears ⟨b, r, c⟩ := by
  obtain ⟨x, y, hx, hy, hxy⟩ := h
  exact ⟨x, y, hx.trans _ _ _ hab, hy, hxy⟩

lemma hereditary_bears (t : Table) : t.Hereditary t.Bears :=
  ⟨fun _ _ _ hr _ => bears_of_relation hr, fun _ _ hf => hf.converse,
    fun _ hp _ _ hf => hf.congr_left (.symm _ _ (.rel _ _ hp))⟩

/-! ### What stays -/

structure Keeps (t u : Table) : Prop where
  ids : u.ids = t.ids
  weight : ∀ a, u.weight a = t.weight a
  equalities : u.equalities = t.equalities
  places : ∀ a, (t.relationsOf a).map Prod.fst <+: (u.relationsOf a).map Prod.fst
  strict : ∀ a b r, t.relation a b = some r → r.isStrict = true →
    ∃ s, u.relation a b = some s ∧ s.isStrict = true

lemma Keeps.refl (t : Table) : t.Keeps t :=
  ⟨rfl, fun _ => rfl, rfl, fun _ => List.prefix_rfl, fun _ _ r hr hs => ⟨r, hr, hs⟩⟩

lemma Keeps.trans (h : t.Keeps u) (h' : u.Keeps v) : t.Keeps v := by
  refine ⟨h'.ids.trans h.ids, fun a => (h'.weight a).trans (h.weight a),
    h'.equalities.trans h.equalities, fun a => (h.places a).trans (h'.places a), ?_⟩
  intro a b r hr hs
  obtain ⟨s, hs', hstrict⟩ := h.strict a b r hr hs
  exact h'.strict a b s hs' hstrict

lemma keys_relationsOf_write (t : Table) (f : Fact) (a : String) :
    (t.relationsOf a).map Prod.fst <+: ((t.write f).relationsOf a).map Prod.fst := by
  rw [relationsOf_write]
  split_ifs with ha
  · have hkeys := Register.keys_insert (t.row f.subject).edges f.object f.relation
    unfold Register.keys at hkeys
    rw [ha, relationsOf, hkeys]
    split_ifs
    · exact List.prefix_rfl
    · exact List.prefix_append _ _
  · exact List.prefix_rfl

lemma keeps_write (hs : f.relation.isStrict = true) (hf : f.subject ∈ t.ids) :
    t.Keeps (t.write f) := by
  refine ⟨ids_write_of_mem hf, weight_write_of_isStrict hs, equalities_write_of_isStrict hs,
    t.keys_relationsOf_write f, fun a b r hr hr' => ?_⟩
  rw [relation_write]
  split_ifs
  · exact ⟨f.relation, rfl, hs⟩
  · exact ⟨r, hr, hr'⟩

lemma WellKept.keeps_derive (h : t.WellKept) : t.Keeps t.derive := by
  refine h.hereditary_mem_ids.derive_induction (P := fun u => t.Keeps u) (.refl t) ?_
  intro u f hs hf hu
  exact hu.trans (keeps_write hs (hu.ids.symm ▸ hf.1))

/-! ### Passes -/

lemma WellKept.iterate_derive (h : t.WellKept) (k : ℕ) : (Table.derive^[k] t).WellKept :=
  Function.Iterate.rec WellKept h (fun _ h => h.derive) k

lemma WellKept.keeps_iterate_derive (h : t.WellKept) (k : ℕ) : t.Keeps (Table.derive^[k] t) := by
  induction k with
  | zero => exact .refl t
  | succ k ih =>
    rw [Function.iterate_succ_apply']
    exact ih.trans (h.iterate_derive k).keeps_derive

lemma Hereditary.iterate_derive {Q : Fact → Prop} (h : t.Hereditary Q) (k : ℕ) :
    (Table.derive^[k] t).Hereditary Q :=
  Function.Iterate.rec (fun u : Table => u.Hereditary Q) h (fun _ h => h.derive) k

end Table

namespace Graph

variable {ν : Type} [Identified ν]

/-- The graph after following the equalities `k` times. -/
def passes (g : Graph ν) (k : ℕ) : Graph ν := g.run (List.replicate k .derive)

lemma passes_eq_withTable (g : Graph ν) (k : ℕ) :
    g.passes k = g.withTable (Table.derive^[k] g.table) := by
  induction k generalizing g with
  | zero => rfl
  | succ k ih =>
    unfold passes at ih ⊢
    rw [List.replicate_succ, run_cons, ih]
    rfl

lemma table_passes (g : Graph ν) (k : ℕ) : (g.passes k).table = Table.derive^[k] g.table := by
  rw [passes_eq_withTable]
  rfl

/-- **Nothing is inherited but what alike ids bear out**, in any number of passes; and but for
the relations that are written, a pass changes nothing. -/
theorem bears_of_passes {g : Graph ν} (hg : g.Reached) (k : ℕ) :
    (∀ x y r, (g.passes k).table.relation x y = some r → r.isStrict = true →
      ∃ x' y', g.table.Alike x' x ∧ g.table.Alike y' y ∧
        (g.table.relation x' y' = some r ∨ g.table.relation y' x' = some r.inverse)) ∧
    (g.passes k).nodes = g.nodes ∧ (g.passes k).maxDepth = g.maxDepth ∧
    g.table.Keeps (g.passes k).table := by
  refine ⟨fun x y r hr hs => ?_, ?_, ?_, ?_⟩
  · rw [table_passes] at hr
    exact (g.table.hereditary_bears.iterate_derive k).written x y r hr hs
  · rw [passes_eq_withTable]
    rfl
  · rw [passes_eq_withTable]
    rfl
  · rw [table_passes]
    exact hg.wellKept.keeps_iterate_derive k

/-- Two equalities on the way from `x` to what `w` is known to stand before. -/
def hops : Graph String :=
  (ofNodes []).run [.record ⟨"x", .equal, "y"⟩, .record ⟨"y", .equal, "w"⟩,
    .record ⟨"w", .less, "z"⟩]

lemma reached_hops : hops.Reached := ⟨_, .ofNodes _, _, rfl⟩

/-- The fact about `w` takes two passes to come to `x`. -/
theorem bears_of_two_passes :
    (hops.passes 1).table.relation "x" "z" = none ∧
    (hops.passes 2).table.relation "x" "z" = some .less ∧
    (∃ x y, hops.table.Alike x "x" ∧ hops.table.Alike y "z" ∧
      (hops.table.relation x y = some .less ∨ hops.table.relation y x = some .greater)) ∧
    hops.table.Keeps (hops.passes 2).table := by
  obtain ⟨hbears, -, -, hkeeps⟩ := bears_of_passes reached_hops 2
  have hless : (hops.passes 2).table.relation "x" "z" = some .less := by decide
  exact ⟨by decide, hless, hbears "x" "z" .less hless rfl, hkeeps⟩

end Graph

end RuleOrder
