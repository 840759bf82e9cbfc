import RuleOrder.Proofs.Careful
import RuleOrder.Proofs.Heredity

/-!
What holds of every graph that was ever reached.

A graph is reached from one that was made from nodes by any calls, careful or not. Its table is
changed in three ways only: a fact is taken in, a weight is set, or equalities are followed. So
the table speaks of no id that it does not know, an id is level with another only if that was
said, and of two ids that were said to be level something is written. A strict relation is
written from both of its sides, and only a level one can come over one side of it alone.
-/

namespace RuleOrder

namespace Table

structure WellKept (t : Table) : Prop where
  known : ∀ a b r, t.relation a b = some r → b ∈ t.ids
  said : ∀ a b, t.relation a b = some .equal → (a, b) ∈ t.equalities
  written : ∀ p ∈ t.equalities, (t.relation p.1 p.2).isSome = true

lemma wellKept_empty : (∅ : Table).WellKept := ⟨by simp, by simp, fun _ h => by cases h⟩

namespace WellKept

variable {t : Table}

lemma fst_mem_ids (h : t.WellKept) {p : String × String} (hp : p ∈ t.equalities) :
    p.1 ∈ t.ids := by
  obtain ⟨r, hr⟩ := Option.isSome_iff_exists.mp (h.written p hp)
  exact mem_ids_of_relation hr

lemma snd_mem_ids (h : t.WellKept) {p : String × String} (hp : p ∈ t.equalities) :
    p.2 ∈ t.ids := by
  obtain ⟨r, hr⟩ := Option.isSome_iff_exists.mp (h.written p hp)
  exact h.known p.1 p.2 r hr

lemma mem_ids_of_mem_successors (h : t.WellKept) (a : String) :
    ∀ b ∈ t.successors a, b ∈ t.ids :=
  fun b hb => h.known a b .less (mem_successors.mp hb)

lemma mem_ids_of_leads (h : t.WellKept) {a b : String} (hl : t.Leads a b) :
    a ∈ t.ids ∧ b ∈ t.ids := by
  obtain ⟨_, ha, -⟩ := Relation.TransGen.head'_iff.mp hl
  obtain ⟨c, -, hb⟩ := Relation.TransGen.tail'_iff.mp hl
  exact ⟨mem_ids_of_relation ha, h.known c b .less hb⟩

lemma intern (h : t.WellKept) (id : String) : (t.intern id).WellKept := by
  refine ⟨fun a b r hr => ?_, by simpa using h.said, by simpa using h.written⟩
  rw [relation_intern] at hr
  exact mem_ids_intern.mpr (Or.inr (h.known a b r hr))

lemma setWeight (h : t.WellKept) (id : String) (w : Int64) : (t.setWeight id w).WellKept := by
  refine ⟨fun a b r hr => ?_, by simpa using h.said, by simpa using h.written⟩
  rw [relation_setWeight] at hr
  have hb := h.known a b r hr
  rw [ids_setWeight]
  split_ifs
  · exact hb
  · exact List.mem_append_left _ hb

lemma write (h : t.WellKept) {f : Fact} (hf : f.object ∈ t.ids) : (t.write f).WellKept := by
  refine ⟨fun a b r hr => ?_, fun a b hr => ?_, fun p hp => ?_⟩
  · have hb : b ∈ t.ids := by
      rw [relation_write] at hr
      split_ifs at hr with hab
      · exact hab.2 ▸ hf
      · exact h.known a b r hr
    rw [ids_write]
    split_ifs
    · exact hb
    · exact List.mem_append_left _ hb
  · rw [relation_write] at hr
    rw [equalities_write]
    split_ifs at hr with hab
    · obtain ⟨rfl, rfl⟩ := hab
      rw [if_pos (Option.some.inj hr)]
      exact List.mem_append_right _ (by simp)
    · have hab := h.said a b hr
      split_ifs
      · exact List.mem_append_left _ hab
      · exact hab
  · rw [relation_write]
    split_ifs with hab
    · rfl
    · rw [equalities_write] at hp
      refine h.written p ?_
      split_ifs at hp
      · refine (List.mem_append.mp hp).resolve_right fun hmem => hab ?_
        rw [List.mem_singleton] at hmem
        rw [hmem]
        exact ⟨rfl, rfl⟩
      · exact hp

lemma writeAll (h : t.WellKept) {fs : List Fact}
    (hfs : ∀ f ∈ fs, f.subject ∈ t.ids ∧ f.object ∈ t.ids) :
    (t.writeAll fs).WellKept ∧ (t.writeAll fs).ids = t.ids := by
  refine writeAll_induction (P := fun u => u.WellKept ∧ u.ids = t.ids) ⟨h, rfl⟩
    fun u f hf ⟨hu, hids⟩ => ?_
  obtain ⟨hsubject, hobject⟩ := hfs f hf
  rw [← hids] at hsubject hobject
  exact ⟨hu.write hobject, (ids_write_of_mem hsubject).trans hids⟩

lemma writeAll_sides (h : t.WellKept) {f : Fact} (hs : f.subject ∈ t.ids)
    (ho : f.object ∈ t.ids) : (t.writeAll f.sides).WellKept := by
  refine (h.writeAll fun f' hf' => ?_).1
  rcases Fact.mem_sides.mp hf' with rfl | ⟨-, rfl⟩
  · exact ⟨hs, ho⟩
  · exact ⟨ho, hs⟩

lemma record (h : t.WellKept) (f : Fact) : (t.record f).WellKept :=
  ((h.intern _).intern _).writeAll_sides (t.subject_mem_ids_introduce f)
    (t.object_mem_ids_introduce f)

lemma hereditary_mem_ids (h : t.WellKept) :
    t.Hereditary fun f => f.subject ∈ t.ids ∧ f.object ∈ t.ids :=
  ⟨fun a b r hr _ => ⟨mem_ids_of_relation hr, h.known a b r hr⟩, fun _ _ hf => ⟨hf.2, hf.1⟩,
    fun _ hp _ _ hf => ⟨h.fst_mem_ids hp, hf.2⟩⟩

lemma derive (h : t.WellKept) : t.derive.WellKept :=
  (h.writeAll fun f hf => (h.hereditary_mem_ids.forall_mem_derived f hf).2).1

end WellKept

/-! ### The other side of a strict relation -/

/-- The other side of a strict relation is its inverse, unless it was made level since. -/
def Mirrored (t : Table) : Prop :=
  ∀ a b r, a ≠ b → t.relation a b = some r → r.isStrict = true →
    t.relation b a = some r.inverse ∨ t.relation b a = some .equal

lemma mirrored_empty : (∅ : Table).Mirrored := fun _ _ _ _ hr => by cases hr

namespace Mirrored

variable {t : Table}

lemma of_relation_eq (h : t.Mirrored) {u : Table}
    (hu : ∀ a b, u.relation a b = t.relation a b) : u.Mirrored := by
  intro a b r
  rw [hu, hu]
  exact h a b r

lemma setWeight (h : t.Mirrored) (id : String) (w : Int64) : (t.setWeight id w).Mirrored :=
  h.of_relation_eq (t.relation_setWeight id w)

lemma writeAll_sides (h : t.Mirrored) (f : Fact) : (t.writeAll f.sides).Mirrored := by
  intro a b r hab hr hs
  rw [relation_writeAll_sides] at hr ⊢
  split_ifs at hr with hconv hown
  · obtain ⟨-, rfl, rfl⟩ := hconv
    cases hr
    rw [if_neg fun hc => hab hc.2.2, if_pos ⟨rfl, rfl⟩, Relation.inverse_inverse]
    exact Or.inl rfl
  · obtain ⟨rfl, rfl⟩ := hown
    cases hr
    rw [if_pos ⟨hs, rfl, rfl⟩]
    exact Or.inl rfl
  · -- neither side of `f` is that of `a` against `b`, but a level one may be the other
    rw [if_neg fun hc => hown ⟨hc.2.2, hc.2.1⟩]
    split_ifs with hlevel
    · have hf : f.relation = .equal := by
        by_contra hf
        exact hconv ⟨Relation.isStrict_iff.mpr hf, hlevel.2, hlevel.1⟩
      rw [hf]
      exact Or.inr rfl
    · exact h a b r hab hr hs

lemma record (h : t.Mirrored) (f : Fact) : (t.record f).Mirrored :=
  (h.of_relation_eq (t.relation_introduce f)).writeAll_sides f

lemma writeAll_flatMap (h : t.Mirrored) (fs : List Fact) :
    (t.writeAll (fs.flatMap Fact.sides)).Mirrored := by
  induction fs generalizing t with
  | nil => exact h
  | cons f fs ih =>
    rw [List.flatMap_cons, writeAll_append]
    exact ih (h.writeAll_sides f)

lemma derive (h : t.Mirrored) : t.derive.Mirrored := h.writeAll_flatMap t.derived

end Mirrored

end Table

namespace Graph

variable {ν : Type} [Identified ν]

/-- All that a call can do to a table. -/
lemma table_after (g : Graph ν) (c : Call ν) :
    (g.after c).table = g.table ∨ (∃ f, (g.after c).table = g.table.record f) ∨
    (∃ id w, (g.after c).table = g.table.setWeight id w) ∨
    (g.after c).table = g.table.derive := by
  cases hc : c.isCareful with
  | true =>
    rcases table_after_of_isCareful hc with h | ⟨f, -, h⟩ | ⟨id, w, -, h⟩
    · exact Or.inl h
    · exact Or.inr (Or.inl ⟨f, h⟩)
    · exact Or.inr (Or.inr (Or.inl ⟨id, w, h⟩))
  | false =>
    cases c with
    | record f => exact Or.inr (Or.inl ⟨f, rfl⟩)
    | recordSymbol a b s => exact Or.inr (Or.inl ⟨_, rfl⟩)
    | derive => exact Or.inr (Or.inr (Or.inr rfl))
    | tryRecord | tryRecordSymbol | setWeight | pushNode | tryPushNode => cases hc

/-- The graphs that come from some nodes by some calls. -/
def Reached (g : Graph ν) : Prop := ∃ g₀ : Graph ν, g₀.Made ∧ ∃ cs, g₀.run cs = g

/-- **What every call keeps**: what holds of the table that knows nothing and survives each way
of changing a table holds of all that is reached. -/
theorem Reached.induction {P : Table → Prop} {g : Graph ν} (hg : g.Reached) (hempty : P ∅)
    (hrecord : ∀ t f, P t → P (t.record f)) (hweight : ∀ t id w, P t → P (t.setWeight id w))
    (hderive : ∀ t, P t → P t.derive) : P g.table := by
  obtain ⟨g₀, h₀, cs, rfl⟩ := hg
  have hstart : P g₀.table := h₀.table_eq ▸ hempty
  clear h₀
  induction cs generalizing g₀ with
  | nil => exact hstart
  | cons c cs ih =>
    refine ih (g₀.after c) ?_
    rcases g₀.table_after c with h | ⟨f, h⟩ | ⟨id, w, h⟩ | h <;> rw [h]
    · exact hstart
    · exact hrecord _ f hstart
    · exact hweight _ id w hstart
    · exact hderive _ hstart

theorem Reached.wellKept {g : Graph ν} (hg : g.Reached) : g.table.WellKept :=
  hg.induction Table.wellKept_empty (fun _ f h => h.record f) (fun _ id w h => h.setWeight id w)
    fun _ h => h.derive

theorem Reached.mirrored {g : Graph ν} (hg : g.Reached) : g.table.Mirrored :=
  hg.induction Table.mirrored_empty (fun _ f h => h.record f) (fun _ id w h => h.setWeight id w)
    fun _ h => h.derive

end Graph

end RuleOrder
