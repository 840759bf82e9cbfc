import RuleOrder.Proofs.Reach

/-!
What taking in a fact changes.

A fact that is not refused denies nothing that was written, so the table only grows: entries
are added after those that were there, and none is lost, changed or moved. The one new pair of
`less`, if any, closes no cycle.
-/

namespace RuleOrder

namespace Fact

/-- The id that a strict fact puts first. -/
def lower (f : Fact) : String := if f.relation = .greater then f.object else f.subject

/-- The id that a strict fact puts last. -/
def upper (f : Fact) : String := if f.relation = .greater then f.subject else f.object

end Fact

namespace Register

variable {β : Type}

lemma entries_insert_of_get?_none {m : Register β} {key : String} (h : m.get? key = none)
    (value : β) : (m.insert key value).entries = m.entries ++ [(key, value)] := by
  obtain ⟨es, hes⟩ := m
  simp only [get?] at h
  simp only [insert]
  clear hes
  induction es with
  | nil => rfl
  | cons e rest ih =>
    rw [lookup_cons_eq_if] at h
    have hne : ¬key = e.1 := fun he => by simp [he] at h
    rw [if_neg hne] at h
    rw [overwrite, if_neg (fun he => hne he.symm), ih h, List.cons_append]

lemma entries_insert_of_get?_some {m : Register β} {key : String} {value : β}
    (h : m.get? key = some value) : (m.insert key value).entries = m.entries := by
  obtain ⟨es, hes⟩ := m
  simp only [get?] at h
  simp only [insert]
  clear hes
  induction es with
  | nil => simp at h
  | cons e rest ih =>
    rw [lookup_cons_eq_if] at h
    rw [overwrite]
    by_cases he : e.1 = key
    · rw [if_pos he.symm, Option.some.injEq] at h
      rw [if_pos he, ← he, ← h]
    · rw [if_neg fun hk => he hk.symm] at h
      rw [if_neg he, ih h]

end Register

namespace Table

/-- Nothing that is written for the subject and object of `f` denies it. -/
def Agrees (t : Table) (f : Fact) : Prop :=
  ∀ kept, t.relation f.subject f.object = some kept → kept = f.relation

/-- Every entry of `t` is one of `u`, in the same place among the edges of its id. -/
def Grows (t u : Table) : Prop := ∀ a, t.relationsOf a <+: u.relationsOf a

lemma Grows.refl (t : Table) : t.Grows t := fun _ => List.prefix_rfl

lemma Grows.of_eq {t u : Table} (h : ∀ a, u.relationsOf a = t.relationsOf a) : t.Grows u :=
  fun a => ⟨[], by rw [List.append_nil, h a]⟩

lemma Grows.trans {t u v : Table} (h : t.Grows u) (h' : u.Grows v) : t.Grows v :=
  fun a => (h a).trans (h' a)

lemma Grows.relation {t u : Table} (h : t.Grows u) {a b : String} {r : Relation}
    (hr : t.relation a b = some r) : u.relation a b = some r := by
  rw [relation_eq_some_iff] at hr ⊢
  exact (h a).subset hr

/-! ### The views of the table with a fact taken in -/

@[simp] lemma relation_introduce (t : Table) (f : Fact) (a b : String) :
    (t.introduce f).relation a b = t.relation a b := by
  simp [introduce]

@[simp] lemma relationsOf_introduce (t : Table) (f : Fact) (a : String) :
    (t.introduce f).relationsOf a = t.relationsOf a := by
  simp [introduce]

@[simp] lemma weight_introduce (t : Table) (f : Fact) (a : String) :
    (t.introduce f).weight a = t.weight a := by
  simp [introduce]

lemma relationsOf_write (t : Table) (f : Fact) (a : String) :
    (t.write f).relationsOf a =
      if a = f.subject then ((t.row f.subject).edges.insert f.object f.relation).entries
      else t.relationsOf a := by
  simp only [relationsOf, row_write]
  split <;> rfl

lemma relation_writeAll_sides (t : Table) (f : Fact) (a b : String) :
    (t.writeAll f.sides).relation a b =
      if f.relation.isStrict = true ∧ a = f.object ∧ b = f.subject then
        some f.relation.inverse
      else if a = f.subject ∧ b = f.object then some f.relation
      else t.relation a b := by
  unfold Fact.sides
  by_cases h : f.relation.isStrict = true
  · simp [h, relation_write, Fact.converse]
  · simp [h, relation_write]

theorem relation_record (t : Table) (f : Fact) (a b : String) :
    (t.record f).relation a b =
      if f.relation.isStrict = true ∧ a = f.object ∧ b = f.subject then
        some f.relation.inverse
      else if a = f.subject ∧ b = f.object then some f.relation
      else t.relation a b := by
  rw [record, relation_writeAll_sides, relation_introduce]

/-- A level fact gives a subject without a weight that of its object. -/
theorem weight_record (t : Table) (f : Fact) (a : String) :
    (t.record f).weight a =
      if a = f.subject ∧ f.relation = .equal then (t.weight a).or (t.weight f.object)
      else t.weight a := by
  unfold record Fact.sides
  by_cases h : f.relation.isStrict = true
  · have hconv : f.converse.relation.isStrict = true := by
      rw [Fact.converse, Relation.isStrict_inverse]
      exact h
    rw [if_pos h, writeAll_cons, writeAll_cons, writeAll_nil, weight_write_of_isStrict hconv,
      weight_write_of_isStrict h, weight_introduce,
      if_neg fun ha => Relation.isStrict_iff.mp h ha.2]
  · rw [if_neg h, writeAll_cons, writeAll_nil, weight_write, weight_introduce, weight_introduce]

lemma weight_record_of_isStrict {t : Table} {f : Fact} (h : f.relation.isStrict = true)
    (a : String) : (t.record f).weight a = t.weight a := by
  rw [weight_record, if_neg fun ha => Relation.isStrict_iff.mp h ha.2]

lemma subject_mem_ids_introduce (t : Table) (f : Fact) : f.subject ∈ (t.introduce f).ids :=
  mem_ids_intern.mpr (Or.inr (mem_ids_intern.mpr (Or.inl rfl)))

lemma object_mem_ids_introduce (t : Table) (f : Fact) : f.object ∈ (t.introduce f).ids :=
  mem_ids_intern.mpr (Or.inl rfl)

lemma ids_writeAll_sides {t : Table} {f : Fact} (hs : f.subject ∈ t.ids)
    (ho : f.object ∈ t.ids) : (t.writeAll f.sides).ids = t.ids := by
  have hown : (t.write f).ids = t.ids := ids_write_of_mem hs
  unfold Fact.sides
  split_ifs
  · rw [writeAll_cons, writeAll_cons, writeAll_nil, ids_write_of_mem, hown]
    rw [hown]
    exact ho
  · exact hown

lemma ids_record (t : Table) (f : Fact) : (t.record f).ids = (t.introduce f).ids :=
  ids_writeAll_sides (t.subject_mem_ids_introduce f) (t.object_mem_ids_introduce f)

lemma equalities_record (t : Table) (f : Fact) :
    (t.record f).equalities =
      if f.relation = .equal then t.equalities ++ [(f.subject, f.object)] else t.equalities := by
  unfold record Fact.sides
  split_ifs with hs he he
  · exact absurd he (Relation.isStrict_iff.mp hs)
  · have hconv : f.converse.relation.isStrict = true := by
      rw [Fact.converse, Relation.isStrict_inverse]
      exact hs
    rw [writeAll_cons, writeAll_cons, writeAll_nil, equalities_write_of_isStrict hconv,
      equalities_write_of_isStrict hs]
    rfl
  · rw [writeAll_cons, writeAll_nil, equalities_write, if_pos he]
    rfl
  · exact absurd (Relation.isStrict_iff.mpr he) hs

/-! ### What is refused -/

lemma contradiction?_eq_none_iff {t : Table} {f : Fact} :
    t.contradiction? f = none ↔ t.Agrees f := by
  unfold contradiction? Agrees
  split
  · next kept h => simp [h]
  · next h => simp [h]

lemma closesCycle_iff {t : Table} {f : Fact} :
    t.closesCycle f = true ↔
      f.relation.isStrict = true ∧ (f.subject = f.object ∨ t.Leads f.upper f.lower) := by
  obtain ⟨a, r, b⟩ := f
  cases r <;>
    simp [closesCycle, Fact.upper, Fact.lower, Relation.isStrict, precedes_iff]

/-- **When a fact is taken in**: when both of its sides agree with the table and a strict one
puts no id before itself. -/
theorem refusal?_eq_none_iff {t : Table} {f : Fact} :
    t.refusal? f = none ↔
      t.Agrees f ∧ (f.relation.isStrict = true →
        t.Agrees f.converse ∧ f.subject ≠ f.object ∧ ¬t.Leads f.upper f.lower) := by
  rw [refusal?, Option.or_eq_none_iff]
  have hcycle : (if t.closesCycle f then some (Fault.cycle f) else none) = none ↔
      ¬(f.relation.isStrict = true ∧ (f.subject = f.object ∨ t.Leads f.upper f.lower)) := by
    rw [← closesCycle_iff]
    simp
  rw [hcycle]
  unfold Fact.sides
  by_cases h : f.relation.isStrict = true
  · simp [h, contradiction?_eq_none_iff, and_assoc]
  · simp [h, contradiction?_eq_none_iff]

/-! ### What is taken in only adds -/

lemma grows_write {t : Table} {f : Fact} (h : t.Agrees f) : t.Grows (t.write f) := by
  intro a
  rw [relationsOf_write]
  split
  · next ha =>
    rw [ha]
    cases hr : (t.row f.subject).edges.get? f.object with
    | none =>
      rw [Register.entries_insert_of_get?_none hr]
      exact List.prefix_append _ _
    | some kept =>
      obtain rfl := h kept hr
      rw [Register.entries_insert_of_get?_some hr]
      exact List.prefix_rfl
  · exact List.prefix_rfl

/-- **Nothing written is lost, changed or moved** by a fact that is not refused. -/
theorem grows_record {t : Table} {f : Fact} (h : t.refusal? f = none) :
    t.Grows (t.record f) := by
  obtain ⟨hown, hstrict⟩ := refusal?_eq_none_iff.mp h
  have hintro : t.Grows (t.introduce f) := .of_eq (relationsOf_introduce t f)
  have hfirst : (t.introduce f).Grows ((t.introduce f).write f) :=
    grows_write fun kept hk => hown kept (by simpa using hk)
  unfold record Fact.sides
  by_cases hs : f.relation.isStrict = true
  · obtain ⟨hconv, hne, -⟩ := hstrict hs
    rw [if_pos hs, writeAll_cons, writeAll_cons, writeAll_nil]
    refine (hintro.trans hfirst).trans (grows_write fun kept hk => hconv kept ?_)
    -- the first side is not the pair of the second, as the two ids differ
    rw [relation_write, if_neg (fun hc => hne hc.2)] at hk
    simpa using hk
  · rw [if_neg hs, writeAll_cons, writeAll_nil]
    exact hintro.trans hfirst

lemma relation_record_eq_less_iff {t : Table} {f : Fact} (h : t.refusal? f = none)
    {a b : String} :
    (t.record f).relation a b = some .less ↔
      t.relation a b = some .less ∨
        f.relation.isStrict = true ∧ a = f.lower ∧ b = f.upper := by
  obtain ⟨hown, hstrict⟩ := refusal?_eq_none_iff.mp h
  refine ⟨fun hr => ?_, fun hr => ?_⟩
  · rw [relation_record] at hr
    obtain ⟨s, r, o⟩ := f
    cases r <;> grind [Fact.lower, Fact.upper, Relation.isStrict, Relation.inverse]
  · rcases hr with hr | ⟨hs, rfl, rfl⟩
    · exact (grows_record h).relation hr
    · obtain ⟨s, r, o⟩ := f
      have hne := (hstrict hs).2.1
      cases r <;> simp_all [Fact.lower, Fact.upper, relation_record, Relation.isStrict,
        Relation.inverse]

/-! ### No cycle is closed -/

lemma transGen_or_of_edge {r : String → String → Prop} {l u a b : String}
    (h : Relation.TransGen (fun x y => r x y ∨ x = l ∧ y = u) a b) :
    Relation.TransGen r a b ∨ Relation.ReflTransGen r a l ∧ Relation.ReflTransGen r u b := by
  induction h with
  | single hab =>
    rcases hab with hab | ⟨rfl, rfl⟩
    · exact Or.inl (.single hab)
    · exact Or.inr ⟨.refl, .refl⟩
  | tail _ hbc ih =>
    rcases hbc with hbc | ⟨rfl, rfl⟩
    · exact ih.imp (fun h => h.tail hbc) fun ⟨h1, h2⟩ => ⟨h1, h2.tail hbc⟩
    · rcases ih with h | ⟨h, -⟩
      · exact Or.inr ⟨h.to_reflTransGen, .refl⟩
      · exact Or.inr ⟨h, .refl⟩

/-- **The ids on a cycle stay the same** when a fact is taken in. -/
theorem leads_self_record_iff {t : Table} {f : Fact} (h : t.refusal? f = none) {a : String} :
    (t.record f).Leads a a ↔ t.Leads a a := by
  refine ⟨fun hc => ?_, fun hc => ?_⟩
  · have hmono : Relation.TransGen
        (fun x y => t.relation x y = some .less ∨ x = f.lower ∧ y = f.upper) a a := by
      refine Relation.TransGen.mono (fun x y hxy => ?_) a a hc
      exact ((relation_record_eq_less_iff h).mp hxy).imp_right fun h => h.2
    by_cases hs : f.relation.isStrict = true
    · obtain ⟨-, hne, hno⟩ := (refusal?_eq_none_iff.mp h).2 hs
      rcases transGen_or_of_edge hmono with hc | ⟨h1, h2⟩
      · exact hc
      · -- a cycle over the new edge leads from its upper to its lower end
        rcases Relation.reflTransGen_iff_eq_or_transGen.mp (h2.trans h1) with heq | hlt
        · refine absurd ?_ hne
          unfold Fact.lower Fact.upper at heq
          split at heq
          · exact heq.symm
          · exact heq
        · exact absurd hlt hno
    · refine hc.mono fun x y hxy => ?_
      exact ((relation_record_eq_less_iff h).mp hxy).resolve_right fun h => hs h.1
  · exact hc.mono fun x y hxy => (grows_record h).relation hxy

end Table

end RuleOrder
