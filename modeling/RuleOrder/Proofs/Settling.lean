import Mathlib.Data.Finset.Prod
import Mathlib.Order.Monotone.Basic
import RuleOrder.Proofs.Consistent

/-!
How following equalities comes to an end.

As long as facts are consistent, a pass either relates two ids of which nothing was written or
leaves the table as it is. No more pairs can be related than there are pairs of ids that are
known, so after as many passes there is nothing left to inherit.
-/

namespace RuleOrder

lemma Register.insert_of_get?_some {β : Type} {m : Register β} {key : String} {value : β}
    (h : m.get? key = some value) : m.insert key value = m :=
  ext_entries (entries_insert_of_get?_some h)

namespace Table

variable {t u : Table} {f : Fact} {fs : List Fact}

/-! ### Writing what is there -/

lemma write_of_relation (hs : f.relation.isStrict = true)
    (hr : t.relation f.subject f.object = some f.relation) : t.write f = t := by
  have hrow : (t.row f.subject).enter f.object f.relation (t.weight f.object) =
      t.row f.subject := by
    rw [Row.enter, if_neg (Relation.isStrict_iff.mp hs), Register.insert_of_get?_some hr]
  have hget : t.rows.get? f.subject = some (t.row f.subject) := by
    obtain ⟨kept, hkept⟩ :=
      Option.isSome_iff_exists.mp (Register.isSome_get?_iff.mpr (mem_ids_of_relation hr))
    rw [Table.row, hkept]
    rfl
  rw [write, hrow, Register.insert_of_get?_some hget, if_neg (Relation.isStrict_iff.mp hs)]

lemma writeAll_of_relation (hfs : ∀ f ∈ fs, f.relation.isStrict = true ∧
    t.relation f.subject f.object = some f.relation) : t.writeAll fs = t :=
  writeAll_induction (P := fun u => u = t) rfl fun u f hf hu => by
    rw [hu, write_of_relation (hfs f hf).1 (hfs f hf).2]

/-! ### The pairs that are related -/

def related (t : Table) : Finset (String × String) :=
  (t.ids.toFinset ×ˢ t.ids.toFinset).filter fun p => (t.relation p.1 p.2).isSome = true

lemma card_related_le (t : Table) : t.related.card ≤ t.ids.length * t.ids.length := by
  refine (Finset.card_filter_le _ _).trans ?_
  rw [Finset.card_product, List.toFinset_card_of_nodup t.nodup_ids]

lemma WellKept.mem_related (h : t.WellKept) {p : String × String} :
    p ∈ t.related ↔ (t.relation p.1 p.2).isSome = true := by
  rw [related, Finset.mem_filter, and_iff_right_iff_imp]
  intro hp
  obtain ⟨r, hr⟩ := Option.isSome_iff_exists.mp hp
  rw [Finset.mem_product, List.mem_toFinset, List.mem_toFinset]
  exact ⟨mem_ids_of_relation hr, h.known _ _ _ hr⟩

lemma Grows.related_subset (h : t.Grows u) (ht : t.WellKept) (hu : u.WellKept) :
    t.related ⊆ u.related := by
  intro p hp
  rw [ht.mem_related, Option.isSome_iff_exists] at hp
  obtain ⟨r, hr⟩ := hp
  rw [hu.mem_related, h.relation hr]
  rfl

lemma Fits.derive_eq_self (h : t.Fits u) (hc : t.Consistent) (hu : u.WellKept)
    (hcard : u.derive.related.card ≤ u.related.card) : u.derive = u := by
  have hgrows := h.grows_derive hc
  have hrelated : u.related = u.derive.related :=
    Finset.eq_of_subset_of_card_le (hgrows.related_subset hu hu.derive) hcard
  refine writeAll_of_relation fun f hf => ⟨(h.strict.forall_mem_derived f hf).1, ?_⟩
  have hwritten : u.derive.relation f.subject f.object = some f.relation :=
    h.relation_writeAll hc h.strict.forall_mem_derived hf
  -- the pair was related before, and what was written of it has stayed
  have hsome : (f.subject, f.object) ∈ u.derive.related := by
    rw [hu.derive.mem_related, hwritten]
    rfl
  rw [← hrelated, hu.mem_related, Option.isSome_iff_exists] at hsome
  obtain ⟨r, hr⟩ := hsome
  rw [hr, ← hgrows.relation hr, hwritten]

/-! ### Passes -/

variable (hc : t.Consistent) (ht : t.WellKept)
include hc ht

lemma grows_iterate_derive (k : ℕ) : (Table.derive^[k] t).Grows (Table.derive^[k + 1] t) := by
  rw [Function.iterate_succ_apply']
  exact (ht.fits_self.iterate_derive k).grows_derive hc

/-- **After as many passes as there are pairs of ids** a further one changes nothing. -/
theorem derive_iterate_derive {k : ℕ} (hk : t.ids.length * t.ids.length ≤ k) :
    (Table.derive^[k] t).derive = Table.derive^[k] t := by
  have hstable : ∀ j, (Table.derive^[j] t).related.card = (Table.derive^[j + 1] t).related.card →
      (Table.derive^[j] t).derive = Table.derive^[j] t := by
    intro j hj
    rw [Function.iterate_succ_apply'] at hj
    exact (ht.fits_self.iterate_derive j).derive_eq_self hc (ht.iterate_derive j) hj.ge
  have hmono : Monotone fun j => (Table.derive^[j] t).related.card :=
    monotone_nat_of_le_succ fun j =>
      Finset.card_le_card ((grows_iterate_derive hc ht j).related_subset
        (ht.iterate_derive j) (ht.iterate_derive (j + 1)))
  have hbound : ∀ j, (Table.derive^[j] t).related.card ≤ t.ids.length * t.ids.length := by
    intro j
    rw [← (ht.keeps_iterate_derive j).ids]
    exact card_related_le _
  have hstays : ∀ j, (Table.derive^[j] t).related.card = (Table.derive^[j + 1] t).related.card →
      (Table.derive^[j + 1] t).related.card = (Table.derive^[j + 2] t).related.card := by
    intro j hj
    rw [Function.iterate_succ_apply' _ (j + 1), Function.iterate_succ_apply' _ j, hstable j hj,
      hstable j hj]
  -- a count that grows under a bound, and stays once it has stayed, stays from the bound on
  apply hstable
  rw [Nat.stabilises_of_monotone hmono hbound hstays hk,
    Nat.stabilises_of_monotone hmono hbound hstays (hk.trans k.le_succ)]

end Table

namespace Graph

variable {ν : Type} [Identified ν]

lemma after_derive_passes_eq_iff (g : Graph ν) (k : ℕ) :
    (g.passes k).after .derive = g.passes k ↔
      (Table.derive^[k] g.table).derive = Table.derive^[k] g.table := by
  rw [passes_eq_withTable]
  refine ⟨fun h => congrArg Graph.table h, fun h => ?_⟩
  exact congrArg g.withTable h

/-- **Following equalities settles** when the facts are consistent. No pass changes what is
written, no id ever comes before itself, after as many passes as there are pairs of known ids
a further one changes nothing, and then each subject of an equality has inherited all. -/
theorem settles_of_consistent {g : Graph ν} (hg : g.Reached) (hc : g.table.Consistent) :
    (∀ k a b r, (g.passes k).table.relation a b = some r →
      (g.passes (k + 1)).table.relation a b = some r) ∧
    (∀ k a, ¬(g.passes k).table.Leads a a) ∧
    (∀ k, g.table.ids.length * g.table.ids.length ≤ k →
      (g.passes k).after .derive = g.passes k) ∧
    ∀ k, (g.passes k).after .derive = g.passes k →
      ∀ a b, (a, b) ∈ (g.passes k).table.equalities → ∀ c r, r.isStrict = true →
        (g.passes k).table.relation b c = some r →
          (g.passes k).table.relation a c = some r ∧
          (g.passes k).table.relation c a = some r.inverse := by
  have ht := hg.wellKept
  refine ⟨fun k a b r hr => ?_, fun k => ?_, fun k hk => ?_, fun k hfix a b hab c r hs hr => ?_⟩
  · rw [table_passes] at hr ⊢
    exact (Table.grows_iterate_derive hc ht k).relation hr
  · rw [table_passes]
    exact (ht.fits_self.iterate_derive k).not_leads hc
  · rw [after_derive_passes_eq_iff]
    exact Table.derive_iterate_derive hc ht hk
  · rw [after_derive_passes_eq_iff] at hfix
    rw [table_passes] at hab hr ⊢
    have hderive := (ht.fits_self.iterate_derive k).relation_derive hc hab hr hs
    rwa [hfix] at hderive

lemma consistent_hops : hops.table.Consistent :=
  Table.consistent_of_height (fun id => if id = "z" then 1 else 0) (by decide) (by decide)

/-- Of two hops nothing is left to inherit after two passes. -/
theorem settles_of_hops :
    hops.table.Consistent ∧
    (hops.passes 16).after .derive = hops.passes 16 ∧
    (hops.passes 1).after .derive ≠ hops.passes 1 ∧
    (hops.passes 2).after .derive = hops.passes 2 ∧
    (hops.passes 2).table.relation "x" "z" = some .less ∧
    (hops.passes 2).table.relation "z" "x" = some .greater := by
  obtain ⟨-, -, hend, hall⟩ := settles_of_consistent reached_hops consistent_hops
  have hfix : (hops.passes 2).after .derive = hops.passes 2 := by decide
  exact ⟨consistent_hops, hend 16 (by decide), by decide, hfix,
    hall 2 hfix "x" "y" (by decide) "z" .less rfl (by decide)⟩

end Graph

end RuleOrder
