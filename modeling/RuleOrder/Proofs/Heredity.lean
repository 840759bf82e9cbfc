import RuleOrder.Proofs.Reach
import RuleOrder.Table.Derive

/-!
What passes along equalities.

Following equalities writes into the table that it reads from, so what one equality yields feeds
the next, and the converse of a fact lands in the row of a third id. A property of facts is
hereditary when it survives all of this: it holds of the strict facts that are written, of the
converse of a fact of which it holds, and of what a subject takes over from its object. It then
holds of every fact that is ever yielded, and a property of tables that survives the writing of
such facts survives the following of equalities.
-/

namespace RuleOrder

namespace Table

variable {t : Table} {f : Fact} {Q : Fact → Prop} {fs : List Fact}

structure Hereditary (t : Table) (Q : Fact → Prop) : Prop where
  written : ∀ a b r, t.relation a b = some r → r.isStrict = true → Q ⟨a, r, b⟩
  converse : ∀ f, f.relation.isStrict = true → Q f → Q f.converse
  inherited : ∀ p ∈ t.equalities, ∀ r c, Q ⟨p.2, r, c⟩ → Q ⟨p.1, r, c⟩

/-! ### Writing strict facts -/

lemma writeAll_induction {P : Table → Prop} (h : P t)
    (hstep : ∀ u, ∀ f ∈ fs, P u → P (u.write f)) : P (t.writeAll fs) := by
  induction fs generalizing t with
  | nil => exact h
  | cons f fs ih =>
    exact ih (hstep t f List.mem_cons_self h) fun u f' hf' =>
      hstep u f' (List.mem_cons_of_mem f hf')

lemma equalities_writeAll_of_isStrict (hfs : ∀ f ∈ fs, f.relation.isStrict = true) :
    (t.writeAll fs).equalities = t.equalities :=
  writeAll_induction (P := fun u => u.equalities = t.equalities) rfl fun _ f hf hu =>
    (equalities_write_of_isStrict (hfs f hf)).trans hu

lemma subset_equalities_writeAll {p : String × String} {ps : List (String × String)}
    (hfs : ∀ f ∈ fs, f.relation.isStrict = true) (hps : p :: ps ⊆ t.equalities) :
    ps ⊆ (t.writeAll fs).equalities := by
  rw [equalities_writeAll_of_isStrict hfs]
  exact List.subset_of_cons_subset hps

lemma forall_mem_flatMap_sides
    (hconverse : ∀ f, f.relation.isStrict = true → Q f → Q f.converse) (hfs : ∀ f ∈ fs, Q f) :
    ∀ f ∈ fs.flatMap Fact.sides, Q f := by
  intro f hf
  obtain ⟨f', hf', hside⟩ := List.mem_flatMap.mp hf
  rcases Fact.mem_sides.mp hside with rfl | ⟨hs, rfl⟩
  · exact hfs f hf'
  · exact hconverse f' hs (hfs f' hf')

lemma isStrict_converse (hs : f.relation.isStrict = true) :
    f.converse.relation.isStrict = true := by
  rw [Fact.converse, Relation.isStrict_inverse]
  exact hs

lemma isStrict_of_mem_flatMap_sides (hfs : ∀ f ∈ fs, f.relation.isStrict = true) :
    ∀ f ∈ fs.flatMap Fact.sides, f.relation.isStrict = true :=
  forall_mem_flatMap_sides (fun _ hs _ => isStrict_converse hs) hfs

lemma exists_inherited_subset_derivation {P : Table → Prop} {ps : List (String × String)}
    {a b : String} (h : P t) (hab : (a, b) ∈ ps)
    (hstep : ∀ u, ∀ p ∈ ps, P u → P (u.writeAll ((u.inherited p.1 p.2).flatMap Fact.sides))) :
    ∃ u, P u ∧ u.inherited a b ⊆ t.derivation ps := by
  induction ps generalizing t with
  | nil => cases hab
  | cons p ps ih =>
    rcases List.mem_cons.mp hab with rfl | hab
    · exact ⟨t, h, List.subset_append_left ..⟩
    · obtain ⟨u, hu, hsub⟩ := ih (hstep t p List.mem_cons_self h) hab fun u q hq =>
        hstep u q (List.mem_cons_of_mem p hq)
      exact ⟨u, hu, List.Subset.trans hsub (List.subset_append_right ..)⟩

namespace Hereditary

lemma write (h : t.Hereditary Q) (hf : f.relation.isStrict = true) (hq : Q f) :
    (t.write f).Hereditary Q := by
  refine ⟨fun a b r hr hs => ?_, h.converse, ?_⟩
  · rw [relation_write] at hr
    split_ifs at hr with hab
    · obtain ⟨rfl, rfl⟩ := hab
      cases hr
      exact hq
    · exact h.written a b r hr hs
  · rw [equalities_write_of_isStrict hf]
    exact h.inherited

lemma writeAll (h : t.Hereditary Q) (hfs : ∀ f ∈ fs, f.relation.isStrict = true ∧ Q f) :
    (t.writeAll fs).Hereditary Q :=
  writeAll_induction (P := fun u => u.Hereditary Q) h fun _ f hf hu =>
    hu.write (hfs f hf).1 (hfs f hf).2

lemma forall_mem_sides (h : t.Hereditary Q)
    (hfs : ∀ f ∈ fs, f.relation.isStrict = true ∧ Q f) :
    ∀ f ∈ fs.flatMap Fact.sides, f.relation.isStrict = true ∧ Q f :=
  forall_mem_flatMap_sides
    (fun f hs hf => ⟨isStrict_converse hs, h.converse f hs hf.2⟩) hfs

/-! ### Following equalities -/

lemma forall_mem_inherited (h : t.Hereditary Q) {p : String × String} (hp : p ∈ t.equalities) :
    ∀ f ∈ t.inherited p.1 p.2, f.relation.isStrict = true ∧ Q f := by
  rintro ⟨a, r, c⟩ hf
  obtain ⟨rfl, hs, hr⟩ := mem_inherited.mp hf
  exact ⟨hs, h.inherited p hp r c (h.written p.2 c r hr hs)⟩

lemma forall_mem_derivation (h : t.Hereditary Q) {ps : List (String × String)}
    (hps : ps ⊆ t.equalities) : ∀ f ∈ t.derivation ps, f.relation.isStrict = true ∧ Q f := by
  induction ps generalizing t with
  | nil => simp [derivation]
  | cons p ps ih =>
    have hhead := h.forall_mem_inherited (hps List.mem_cons_self)
    have hsides := h.forall_mem_sides hhead
    have hrest := subset_equalities_writeAll (fun f hf => (hsides f hf).1) hps
    intro f hf
    rw [derivation, List.mem_append] at hf
    rcases hf with hf | hf
    · exact hhead f hf
    · exact ih (h.writeAll hsides) hrest f hf

lemma forall_mem_derived (h : t.Hereditary Q) :
    ∀ f ∈ t.derived.flatMap Fact.sides, f.relation.isStrict = true ∧ Q f :=
  h.forall_mem_sides (h.forall_mem_derivation (List.Subset.refl _))

/-- **What survives the following of equalities**: whatever survives the writing of one strict
fact that has a hereditary property. -/
theorem derive_induction {P : Table → Prop} (h : t.Hereditary Q) (h₀ : P t)
    (hstep : ∀ u f, f.relation.isStrict = true → Q f → P u → P (u.write f)) : P t.derive :=
  writeAll_induction h₀ fun u f hf =>
    hstep u f (h.forall_mem_derived f hf).1 (h.forall_mem_derived f hf).2

lemma derive (h : t.Hereditary Q) : t.derive.Hereditary Q :=
  h.writeAll h.forall_mem_derived

end Hereditary

end Table

end RuleOrder
