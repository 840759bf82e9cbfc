import RuleOrder.Proofs.Made
import RuleOrder.Proofs.Record

/-!
What careful calls keep.

A call is careful when it takes in no fact without checking it. By careful calls alone a table
stays coherent: no id comes before itself, a strict relation is known from both of its sides,
and a level one is not denied by the other side. The three hold each other up. The test for a
cycle follows `less` only, and finds each cycle because every `greater` has its `less` on the
other side.
-/

namespace RuleOrder

namespace Call

variable {ν : Type}

/-- Whether the call checks what it takes in. -/
def isCareful : Call ν → Bool
  | .record _ | .recordSymbol .. | .derive => false
  | _ => true

end Call

namespace Table

/-- What is written does not deny itself. -/
structure Coherent (t : Table) : Prop where
  acyclic : ∀ a, ¬t.Leads a a
  inverse : ∀ a b r, t.relation a b = some r → r.isStrict = true →
    t.relation b a = some r.inverse
  level : ∀ a b, t.relation a b = some .equal →
    t.relation b a = none ∨ t.relation b a = some .equal

lemma coherent_empty : (∅ : Table).Coherent := by
  refine ⟨fun a h => ?_, by simp, by simp⟩
  obtain ⟨b, hb, -⟩ := Relation.TransGen.head'_iff.mp h
  simp at hb

lemma Coherent.inverse_record {t : Table} (h : t.Coherent) {f : Fact} (hf : t.refusal? f = none)
    {a b : String} {r : Relation} (hr : (t.record f).relation a b = some r)
    (hs : r.isStrict = true) : (t.record f).relation b a = some r.inverse := by
  rw [relation_record] at hr
  split_ifs at hr with hconv hside
  · -- the converse side
    obtain ⟨hfs, rfl, rfl⟩ := hconv
    have hne := ((refusal?_eq_none_iff.mp hf).2 hfs).2.1
    cases hr
    rw [relation_record, if_neg (fun hc => hne hc.2.1), if_pos ⟨rfl, rfl⟩,
      Relation.inverse_inverse]
  · -- the side as it was said
    obtain ⟨rfl, rfl⟩ := hside
    cases hr
    rw [relation_record, if_pos ⟨hs, rfl, rfl⟩]
  · exact (grows_record hf).relation (h.inverse a b r hr hs)

lemma level_of_inverse {t : Table}
    (h : ∀ a b r, t.relation a b = some r → r.isStrict = true →
      t.relation b a = some r.inverse) {a b : String} (hab : t.relation a b = some .equal) :
    t.relation b a = none ∨ t.relation b a = some .equal := by
  rcases hba : t.relation b a with _ | r
  · exact Or.inl rfl
  · refine Or.inr (congrArg some ?_)
    by_contra hne
    have hs : r.isStrict = true := Relation.isStrict_iff.mpr hne
    have hinv : r.inverse = .equal := Option.some.inj ((h b a r hba hs).symm.trans hab)
    rw [← Relation.isStrict_inverse, hinv] at hs
    cases hs

/-- **One fact that is not refused** leaves a coherent table coherent. -/
theorem Coherent.record {t : Table} (h : t.Coherent) {f : Fact} (hf : t.refusal? f = none) :
    (t.record f).Coherent := by
  refine ⟨fun a => ?_, fun a b r => h.inverse_record hf,
    fun a b => level_of_inverse fun x y r => h.inverse_record hf⟩
  rw [leads_self_record_iff hf]
  exact h.acyclic a

lemma Coherent.setWeight {t : Table} (h : t.Coherent) (id : String) (w : Int64) :
    (t.setWeight id w).Coherent := by
  refine ⟨fun a ha => h.acyclic a (ha.mono fun x y hxy => ?_), ?_, ?_⟩
  · rwa [relation_setWeight] at hxy
  · simpa using h.inverse
  · simpa using h.level

lemma grows_setWeight (t : Table) (id : String) (w : Int64) : t.Grows (t.setWeight id w) :=
  .of_eq (relationsOf_setWeight t id w)

end Table

namespace Graph

variable {ν : Type} [Identified ν]

lemma table_after_tryRecord (g : Graph ν) (f : Fact) :
    (g.after (.tryRecord f)).table = g.table ∨
    g.table.refusal? f = none ∧ (g.after (.tryRecord f)).table = g.table.record f := by
  cases hf : g.table.refusal? f with
  | none => exact Or.inr ⟨rfl, by rw [after, call_tryRecord_of_granted hf]; rfl⟩
  | some fault => exact Or.inl (by rw [after, call_tryRecord_of_refused hf])

/-- All that a careful call can do to a table. -/
lemma table_after_of_isCareful {g : Graph ν} {c : Call ν} (hc : c.isCareful = true) :
    (g.after c).table = g.table ∨
    (∃ f, g.table.refusal? f = none ∧ (g.after c).table = g.table.record f) ∨
    ∃ id w, c = .setWeight id w ∧ (g.after c).table = g.table.setWeight id w := by
  cases c with
  | record | recordSymbol | derive => cases hc
  | tryRecord f => exact (g.table_after_tryRecord f).imp_right fun h => Or.inl ⟨f, h⟩
  | tryRecordSymbol a b s =>
    cases hs : Relation.ofSymbol? s with
    | some r =>
      rw [after, call_tryRecordSymbol_of_some hs]
      exact (g.table_after_tryRecord ⟨a, r, b⟩).imp_right fun h => Or.inl ⟨_, h⟩
    | none => exact Or.inl (by rw [after, call_tryRecordSymbol_of_none hs])
  | setWeight id w => exact Or.inr (Or.inr ⟨id, w, rfl, rfl⟩)
  | pushNode node => exact Or.inl rfl
  | tryPushNode node =>
    refine Or.inl ?_
    rw [after, call, tryPushNode]
    by_cases h : g.containsId (Identified.id node) = true
    · rw [if_pos h]
    · rw [if_neg h]
      rfl

lemma coherent_after {g : Graph ν} {c : Call ν} (hc : c.isCareful = true)
    (h : g.table.Coherent) : (g.after c).table.Coherent := by
  rcases table_after_of_isCareful hc with heq | ⟨f, hf, heq⟩ | ⟨id, w, -, heq⟩ <;> rw [heq]
  · exact h
  · exact h.record hf
  · exact h.setWeight id w

lemma grows_after {g : Graph ν} {c : Call ν} (hc : c.isCareful = true) :
    g.table.Grows (g.after c).table := by
  rcases table_after_of_isCareful hc with heq | ⟨f, hf, heq⟩ | ⟨id, w, -, heq⟩ <;> rw [heq]
  · exact .refl _
  · exact Table.grows_record hf
  · exact Table.grows_setWeight _ id w

lemma coherent_run {g : Graph ν} (hg : g.table.Coherent) {cs : List (Call ν)}
    (hcs : ∀ c ∈ cs, c.isCareful = true) :
    (g.run cs).table.Coherent ∧ g.table.Grows (g.run cs).table := by
  induction cs generalizing g with
  | nil => exact ⟨hg, .refl _⟩
  | cons c cs ih =>
    have hc := hcs c List.mem_cons_self
    obtain ⟨h1, h2⟩ := ih (coherent_after hc hg) fun d hd => hcs d (List.mem_cons_of_mem _ hd)
    exact ⟨h1, (grows_after hc).trans h2⟩

/-- **Careful calls keep a table coherent**: from any graph made from nodes, the table has no
cycle, each strict relation is known from both sides, no side denies a level one, and at every
point of the run each entry that was written before is there in its place. -/
theorem coherent_run_of_made {g : Graph ν} (hg : g.Made) {cs : List (Call ν)}
    (hcs : ∀ c ∈ cs, c.isCareful = true) :
    (g.run cs).table.Coherent ∧
      ∀ cs₁ cs₂, cs = cs₁ ++ cs₂ → (g.run cs₁).table.Grows (g.run cs).table := by
  have hempty : g.table.Coherent := by
    rw [hg.table_eq]
    exact Table.coherent_empty
  refine ⟨(coherent_run hempty hcs).1, ?_⟩
  rintro cs₁ cs₂ rfl
  have h1 := (coherent_run hempty fun c hc => hcs c (List.mem_append_left _ hc)).1
  rw [run_append]
  exact (coherent_run h1 fun c hc => hcs c (List.mem_append_right _ hc)).2

/-- Calls of which one is refused for a cycle, and one says again what the first one said. -/
def aroundCycle : List (Call String) :=
  [.tryRecord ⟨"a", .less, "b"⟩, .tryRecordSymbol "b" "c" "<", .tryRecord ⟨"c", .less, "a"⟩,
    .setWeight "a" 3, .tryRecord ⟨"b", .greater, "a"⟩, .tryRecord ⟨"a", .equal, "d"⟩,
    .tryPushNode "a"]

theorem coherent_run_aroundCycle :
    (∀ c ∈ aroundCycle, c.isCareful = true) ∧
    ((ofNodes ["a", "b"]).run aroundCycle).table.Coherent ∧
    ((ofNodes ["a", "b"]).run (aroundCycle.take 2)).table.Grows
      ((ofNodes ["a", "b"]).run aroundCycle).table :=
  have hcs := by decide
  have h := coherent_run_of_made (.ofNodes _) hcs
  ⟨hcs, h.1, h.2 _ _ (List.take_append_drop 2 _).symm⟩

end Graph

end RuleOrder
