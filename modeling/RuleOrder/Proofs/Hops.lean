import RuleOrder.Proofs.Inheritance

/-!
How far passes carry strict relations.

A pass writes nothing but strict relations. It may turn round what was written before, but where
something strict stood something strict stays, so the object of an equality still has all its
strict relations when the equality comes to be read, whatever was written by then. So each pass
carries them over every equality, and over a chain of equalities as many passes as it has links
will do, in whatever order the equalities were said.
-/

namespace RuleOrder

namespace Table

variable {t : Table} {f : Fact} {fs : List Fact} {a b c : String}

/-- Something strict is written for `a` against `b`, one way or the other. -/
def Apart (t : Table) (a b : String) : Prop :=
  ∃ r, t.relation a b = some r ∧ r.isStrict = true

/-! ### Writing strict facts -/

lemma apart_write (hf : f.relation.isStrict = true) :
    (t.write f).Apart f.subject f.object :=
  ⟨f.relation, by rw [relation_write, if_pos ⟨rfl, rfl⟩], hf⟩

lemma Apart.write (h : t.Apart a b) (hf : f.relation.isStrict = true) :
    (t.write f).Apart a b := by
  obtain ⟨r, hr, hs⟩ := h
  by_cases hab : a = f.subject ∧ b = f.object
  · rw [hab.1, hab.2]
    exact apart_write hf
  · exact ⟨r, by rw [relation_write, if_neg hab, hr], hs⟩

lemma Apart.writeAll (h : t.Apart a b) (hfs : ∀ f ∈ fs, f.relation.isStrict = true) :
    (t.writeAll fs).Apart a b :=
  writeAll_induction (P := fun u => u.Apart a b) h fun _ f hf hu => hu.write (hfs f hf)

lemma apart_writeAll (hfs : ∀ f ∈ fs, f.relation.isStrict = true) (hf : f ∈ fs) :
    (t.writeAll fs).Apart f.subject f.object := by
  obtain ⟨gs, hs, rfl⟩ := List.append_of_mem hf
  rw [writeAll_append, writeAll_cons]
  refine (apart_write (hfs f hf)).writeAll fun g hg => hfs g ?_
  exact List.mem_append_right gs (List.mem_cons_of_mem f hg)

lemma isStrict_of_mem_sides_inherited :
    ∀ f ∈ (t.inherited a b).flatMap Fact.sides, f.relation.isStrict = true :=
  isStrict_of_mem_flatMap_sides fun _ hf => (mem_inherited.mp hf).2.1

lemma isStrict_of_mem_sides_derived :
    ∀ f ∈ t.derived.flatMap Fact.sides, f.relation.isStrict = true :=
  isStrict_of_mem_flatMap_sides fun _ hf => isStrict_of_mem_derivation hf

/-! ### One pass -/

/-- Each equality is read while its object still has its strict relations. -/
lemma exists_mem_derivation {ps : List (String × String)} (hab : (a, b) ∈ ps)
    (h : t.Apart b c) : ∃ r, ⟨a, r, c⟩ ∈ t.derivation ps := by
  obtain ⟨u, ⟨r, hr, hs⟩, hsub⟩ := exists_inherited_subset_derivation (P := fun u => u.Apart b c)
    h hab fun _ _ _ hu => hu.writeAll isStrict_of_mem_sides_inherited
  exact ⟨r, hsub (mem_inherited.mpr ⟨rfl, hs, hr⟩)⟩

/-- **A pass carries every strict relation over every equality**, from both sides. -/
theorem apart_derive (hab : (a, b) ∈ t.equalities) (h : t.Apart b c) :
    t.derive.Apart a c ∧ t.derive.Apart c a := by
  obtain ⟨r, hr⟩ := exists_mem_derivation hab h
  have hwritten : ∀ f ∈ Fact.sides ⟨a, r, c⟩, t.derive.Apart f.subject f.object := fun f hf =>
    apart_writeAll isStrict_of_mem_sides_derived (List.mem_flatMap.mpr ⟨_, hr, hf⟩)
  exact ⟨hwritten _ (Fact.mem_sides.mpr (Or.inl rfl)),
    hwritten _ (Fact.mem_sides.mpr (Or.inr ⟨isStrict_of_mem_derivation hr, rfl⟩))⟩

lemma Apart.derive (h : t.Apart a b) : t.derive.Apart a b :=
  h.writeAll isStrict_of_mem_sides_derived

lemma equalities_derive (t : Table) : t.derive.equalities = t.equalities :=
  equalities_writeAll_of_isStrict isStrict_of_mem_sides_derived

/-! ### Some passes -/

lemma Apart.iterate_derive (h : t.Apart a b) (k : ℕ) : (Table.derive^[k] t).Apart a b :=
  Function.Iterate.rec (fun u : Table => u.Apart a b) h (fun _ h => h.derive) k

lemma equalities_iterate_derive (t : Table) (k : ℕ) :
    (Table.derive^[k] t).equalities = t.equalities :=
  Function.Iterate.rec (fun u : Table => u.equalities = t.equalities) rfl
    (fun u h => (equalities_derive u).trans h) k

/-- **Over a chain of equalities** strict relations are carried by as many passes as it has
links. -/
theorem apart_iterate_derive {m : ℕ} {x : ℕ → String}
    (hx : ∀ i < m + 1, (x i, x (i + 1)) ∈ t.equalities) (h : t.Apart (x (m + 1)) c) :
    (Table.derive^[m + 1] t).Apart (x 0) c ∧ (Table.derive^[m + 1] t).Apart c (x 0) := by
  induction m generalizing x with
  | zero => exact apart_derive (hx 0 Nat.zero_lt_one) h
  | succ m ih =>
    -- all but the first link are behind after `m + 1` passes, and one more goes over the first
    have htail : (Table.derive^[m + 1] t).Apart (x 1) c :=
      (ih (x := fun i => x (i + 1)) (fun i hi => hx (i + 1) (Nat.succ_lt_succ hi)) h).1
    have hfirst : (x 0, x 1) ∈ (Table.derive^[m + 1] t).equalities := by
      rw [equalities_iterate_derive]
      exact hx 0 (Nat.zero_lt_succ _)
    rw [Function.iterate_succ_apply']
    exact apart_derive hfirst htail

end Table

namespace Graph

variable {ν : Type} [Identified ν]

/-- **Each pass carries strict relations one equality further**: after `k` passes an id that `m`
equalities lead from, with `m` no more than `k`, is apart from each id that the last id of the
chain was apart from, and from both sides; and so it remains, whatever else is known. -/
theorem apart_passes (g : Graph ν) {k m : ℕ} (hm : 1 ≤ m) (hmk : m ≤ k) {x : ℕ → String}
    (hx : ∀ i < m, (x i, x (i + 1)) ∈ g.table.equalities) {p : String}
    (hp : g.table.Apart (x m) p) :
    (g.passes k).table.Apart (x 0) p ∧ (g.passes k).table.Apart p (x 0) := by
  obtain ⟨m, rfl⟩ := Nat.exists_eq_add_of_le' hm
  obtain ⟨j, rfl⟩ := Nat.exists_eq_add_of_le' hmk
  have hcarried := Table.apart_iterate_derive hx hp
  rw [table_passes, Function.iterate_add_apply]
  exact ⟨hcarried.1.iterate_derive j, hcarried.2.iterate_derive j⟩

/-- Three equalities, each said before the one that it needs, and strict facts about the last of
their ids, one of them against the first. -/
def spread : Graph String :=
  (ofNodes []).run [.record ⟨"a", .equal, "b"⟩, .record ⟨"b", .equal, "c"⟩,
    .record ⟨"c", .equal, "d"⟩, .record ⟨"d", .less, "e"⟩, .record ⟨"d", .less, "a"⟩,
    .record ⟨"e", .less, "d"⟩]

def spreadIds (i : ℕ) : String := ["a", "b", "c", "d"].getD i "d"

/-- The fact that `d` comes before `a` takes all three passes to come back to `a` itself. -/
theorem apart_spread :
    (∀ i < 3, (spreadIds i, spreadIds (i + 1)) ∈ spread.table.equalities) ∧
    spread.table.Apart (spreadIds 3) "a" ∧
    (spread.passes 2).table.relation "a" "a" = none ∧
    (spread.passes 3).table.Apart "a" "a" := by
  have hx : ∀ i < 3, (spreadIds i, spreadIds (i + 1)) ∈ spread.table.equalities := by decide
  have hp : spread.table.Apart (spreadIds 3) "a" := ⟨.less, by decide, rfl⟩
  exact ⟨hx, hp, by decide, (apart_passes spread (by decide) le_rfl hx hp).1⟩

end Graph

end RuleOrder
