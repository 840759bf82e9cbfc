import RuleOrder.Proofs.Made
import RuleOrder.Proofs.Record

/-!
What is refused, and that a refusal changes nothing.

A fact is refused for one reason: because its own side is denied, else because its converse is,
else because it closes a cycle. This holds of any table, also of one that already contradicts
itself. Whether a refusal leaves a table as it was depends on the order in which things are
done, so the recording is also told step by step on a table that is changed in place; there it
comes out that every test goes before the first change.
-/

namespace RuleOrder

namespace Table

/-- The fault for which a table refuses a fact. -/
inductive Refuses (t : Table) (f : Fact) : Fault → Prop
  | own {kept : Relation} (h : t.relation f.subject f.object = some kept)
      (hne : kept ≠ f.relation) : Refuses t f (.contradiction f kept)
  | converse {kept : Relation} (hs : f.relation.isStrict = true) (hown : t.Agrees f)
      (h : t.relation f.object f.subject = some kept) (hne : kept ≠ f.relation.inverse) :
      Refuses t f (.contradiction f.converse kept)
  | cycle (hs : f.relation.isStrict = true) (hown : t.Agrees f) (hconv : t.Agrees f.converse)
      (h : f.subject = f.object ∨ t.Leads f.upper f.lower) : Refuses t f (.cycle f)

/-- The tests in the order in which they are made. -/
lemma refusal?_eq_or (t : Table) (f : Fact) :
    t.refusal? f = (t.contradiction? f).or
      (if f.relation.isStrict then (t.contradiction? f.converse).or
        (if t.closesCycle f then some (.cycle f) else none) else none) := by
  unfold refusal? Fact.sides
  by_cases hs : f.relation.isStrict = true
  · rw [if_pos hs, if_pos hs]
    cases h : t.contradiction? f <;> cases h' : t.contradiction? f.converse <;> simp [h, h']
  · have hc : ¬t.closesCycle f = true := fun hc => hs (closesCycle_iff.mp hc).1
    rw [if_neg hs, if_neg hs, if_neg hc]
    cases h : t.contradiction? f <;> simp [h]

theorem refusal?_eq_some_iff {t : Table} {f : Fact} {fault : Fault} :
    t.refusal? f = some fault ↔ t.Refuses f fault := by
  rw [refusal?_eq_or, Option.or_eq_some_iff, contradiction?_eq_none_iff]
  refine ⟨fun h => ?_, fun h => ?_⟩
  · rcases h with h | ⟨hown, h⟩
    · obtain ⟨kept, hk, hne, rfl⟩ := contradiction?_eq_some_iff.mp h
      exact .own hk hne
    · by_cases hs : f.relation.isStrict = true
      · rw [if_pos hs, Option.or_eq_some_iff, contradiction?_eq_none_iff] at h
        rcases h with h | ⟨hconv, h⟩
        · obtain ⟨kept, hk, hne, rfl⟩ := contradiction?_eq_some_iff.mp h
          exact .converse hs hown hk hne
        · split at h
          · next hc =>
            cases h
            exact .cycle hs hown hconv (closesCycle_iff.mp hc).2
          · cases h
      · rw [if_neg hs] at h
        cases h
  · cases h with
    | own h hne => exact Or.inl (contradiction?_eq_some_iff.mpr ⟨_, h, hne, rfl⟩)
    | converse hs hown h hne =>
      refine Or.inr ⟨hown, ?_⟩
      rw [if_pos hs, Option.or_eq_some_iff]
      exact Or.inl (contradiction?_eq_some_iff.mpr ⟨_, h, hne, rfl⟩)
    | cycle hs hown hconv h =>
      refine Or.inr ⟨hown, ?_⟩
      rw [if_pos hs, Option.or_eq_some_iff, contradiction?_eq_none_iff,
        if_pos (closesCycle_iff.mpr ⟨hs, h⟩)]
      exact Or.inr ⟨hconv, rfl⟩

lemma refusal?_of_not_refuses {t : Table} {f : Fact} (h : ∀ fault, ¬t.Refuses f fault) :
    t.refusal? f = none := by
  cases hr : t.refusal? f with
  | none => rfl
  | some fault => exact absurd (refusal?_eq_some_iff.mp hr) (h fault)

/-! ### Recording in place -/

/-- Steps on a table that is changed in place; a fault leaves it as the steps before it did. -/
abbrev InPlace := ExceptT Fault (StateM Table)

/-- End with the fault that a test finds in the table as it stands, if it finds one. -/
def endIf (test : Table → Option Fault) : InPlace Unit := do
  match test (← get) with
  | some fault => throw fault
  | none => pure ()

/-- A fact taken in step by step, unless it is refused. -/
def tryRecordInPlace (f : Fact) : InPlace Unit := do
  endIf (contradiction? · f)
  if f.relation.isStrict then
    endIf (contradiction? · f.converse)
    endIf fun t => if t.closesCycle f then some (.cycle f) else none
  modify (intern · f.subject)
  modify (intern · f.object)
  modify (write · f)
  if f.relation.isStrict then modify (write · f.converse)

/-- What a symbol says taken in step by step, unless it is refused. -/
def tryRecordSymbolInPlace (a b symbol : String) : InPlace Unit := do
  let r ← liftExcept (Relation.parse symbol)
  tryRecordInPlace ⟨a, r, b⟩

lemma run_endIf_bind (test : Table → Option Fault) (rest : InPlace Unit) (t : Table) :
    (do endIf test; rest).run.run t =
      match test t with
      | some fault => (.error fault, t)
      | none => rest.run.run t := by
  have h : (do endIf test; rest).run.run t = ((match test t with
      | some fault => (throw fault : InPlace Unit)
      | none => pure ()) >>= fun _ => rest).run.run t := rfl
  rw [h]
  cases test t <;> rfl

/-- **Every test goes before the first change**: in place, a fact is taken in whole, or it is
refused and the table is as it was. -/
theorem run_tryRecordInPlace (t : Table) (f : Fact) :
    (tryRecordInPlace f).run.run t =
      match t.refusal? f with
      | some fault => (.error fault, t)
      | none => (.ok (), t.record f) := by
  unfold tryRecordInPlace
  rw [run_endIf_bind, refusal?_eq_or]
  cases t.contradiction? f with
  | some fault => rfl
  | none =>
    by_cases hs : f.relation.isStrict = true
    · have hrec : t.record f = ((t.introduce f).write f).write f.converse := by
        rw [record, Fact.sides, if_pos hs]
        rfl
      simp only [hs, if_true, hrec]
      rw [run_endIf_bind]
      cases t.contradiction? f.converse with
      | some fault => rfl
      | none =>
        rw [run_endIf_bind]
        by_cases hc : t.closesCycle f = true
        · rw [if_pos hc]
          rfl
        · rw [if_neg hc]
          rfl
    · have hrec : t.record f = (t.introduce f).write f := by
        rw [record, Fact.sides, if_neg hs]
        rfl
      simp only [hs, hrec]
      rfl

end Table

/-! ### Careful calls -/

namespace Graph

variable {ν : Type} [Identified ν]

/-- What `c` takes in is what `d` does, but for the faults for which it is refused; and so it
is when `c` is done in place, by the steps `p`. -/
structure Guarded (g : Graph ν) (c d : Call ν) (p : Table.InPlace Unit)
    (refused : Fault → Prop) : Prop where
  error_iff : ∀ fault, g.call c = .error fault ↔ refused fault
  ok_iff : ∀ g', g.call c = .ok g' ↔ (∀ fault, ¬refused fault) ∧ g.call d = .ok g'
  unchanged : ∀ fault, refused fault →
    g.after c = g ∧ p.run.run g.table = (.error fault, g.table)
  changed : (∀ fault, ¬refused fault) → p.run.run g.table = (.ok (), (g.after d).table)
  grows : (∀ fault, ¬refused fault) → g.table.Grows (g.after c).table
  cycles : (∀ fault, ¬refused fault) →
    ∀ a, (g.after c).table.Leads a a ↔ g.table.Leads a a

lemma Guarded.of_call_eq {g : Graph ν} {c c' d d' : Call ν} {p : Table.InPlace Unit}
    {refused : Fault → Prop} (h : g.Guarded c d p refused) (hc : g.call c' = g.call c)
    (hd : g.call d' = g.call d) : g.Guarded c' d' p refused := by
  have hc' : g.after c' = g.after c := by rw [after, hc, after]
  have hd' : g.after d' = g.after d := by rw [after, hd, after]
  obtain ⟨h1, h2, h3, h4, h5, h6⟩ := h
  exact ⟨by rwa [hc], by rwa [hc, hd], by rwa [hc'], by rwa [hd'], by rwa [hc'], by rwa [hc']⟩

/-- The faults for which what a symbol says is refused. -/
inductive RefusesSymbol (t : Table) (a b symbol : String) : Fault → Prop
  | unknown (h : Relation.ofSymbol? symbol = none) :
      RefusesSymbol t a b symbol (.unknownSymbol symbol)
  | fact {r : Relation} {fault : Fault} (h : Relation.ofSymbol? symbol = some r)
      (hf : t.Refuses ⟨a, r, b⟩ fault) : RefusesSymbol t a b symbol fault

lemma refusesSymbol_iff_of_none {t : Table} {a b symbol : String}
    (hs : Relation.ofSymbol? symbol = none) {fault : Fault} :
    RefusesSymbol t a b symbol fault ↔ fault = .unknownSymbol symbol := by
  refine ⟨fun h => ?_, fun h => h ▸ .unknown hs⟩
  cases h with
  | unknown => rfl
  | fact h =>
    rw [hs] at h
    cases h

lemma refusesSymbol_eq_of_some {t : Table} {a b symbol : String} {r : Relation}
    (hs : Relation.ofSymbol? symbol = some r) :
    RefusesSymbol t a b symbol = t.Refuses ⟨a, r, b⟩ := by
  funext fault
  refine propext ⟨fun h => ?_, fun h => .fact hs h⟩
  cases h with
  | unknown h =>
    rw [hs] at h
    cases h
  | fact h hf =>
    rw [hs, Option.some.injEq] at h
    rw [h]
    exact hf

lemma guarded_tryRecord (g : Graph ν) (f : Fact) :
    g.Guarded (.tryRecord f) (.record f) (Table.tryRecordInPlace f) (g.table.Refuses f) := by
  have hfail : ∀ fault, g.table.Refuses f fault → g.call (.tryRecord f) = .error fault :=
    fun _ h => call_tryRecord_of_refused (Table.refusal?_eq_some_iff.mpr h)
  have hok : (∀ fault, ¬g.table.Refuses f fault) →
      g.table.refusal? f = none ∧ g.call (.tryRecord f) = g.call (.record f) := by
    intro h
    have hr := Table.refusal?_of_not_refuses h
    exact ⟨hr, call_tryRecord_of_granted hr⟩
  have hafter : (∀ fault, ¬g.table.Refuses f fault) →
      (g.after (.tryRecord f)).table = g.table.record f := by
    intro h
    rw [after, (hok h).2]
    rfl
  refine ⟨fun fault => ⟨fun h => ?_, hfail fault⟩, fun g' => ⟨fun h => ?_, fun h => ?_⟩,
    fun fault h => ⟨?_, ?_⟩, fun h => ?_, fun h => ?_, fun h a => ?_⟩
  · by_contra hno
    have hall : ∀ fault', ¬g.table.Refuses f fault' := by
      intro fault' h'
      rw [hfail fault' h'] at h
      cases h
      exact hno h'
    rw [(hok hall).2] at h
    cases h
  · have hall : ∀ fault, ¬g.table.Refuses f fault := by
      intro fault h'
      rw [hfail fault h'] at h
      cases h
    exact ⟨hall, by rw [← (hok hall).2, h]⟩
  · rw [(hok h.1).2, h.2]
  · exact after_eq_of_call_eq_error (hfail fault h)
  · rw [Table.run_tryRecordInPlace, Table.refusal?_eq_some_iff.mpr h]
  · rw [Table.run_tryRecordInPlace, (hok h).1]
    rfl
  · rw [hafter h]
    exact Table.grows_record (hok h).1
  · rw [hafter h]
    exact Table.leads_self_record_iff (hok h).1

lemma guarded_tryRecordSymbol (g : Graph ν) (a b symbol : String) :
    g.Guarded (.tryRecordSymbol a b symbol) (.recordSymbol a b symbol)
      (Table.tryRecordSymbolInPlace a b symbol) (RefusesSymbol g.table a b symbol) := by
  cases hs : Relation.ofSymbol? symbol with
  | none =>
    have hparse := Relation.parse_of_eq_none hs
    have hcall := call_tryRecordSymbol_of_none (g := g) (a := a) (b := b) hs
    have hsome : ¬∀ fault, ¬RefusesSymbol g.table a b symbol fault :=
      fun h => h _ (.unknown hs)
    refine ⟨fun fault => ?_, fun g' => ⟨fun h => ?_, fun h => absurd h.1 hsome⟩,
      fun fault h => ?_, fun h => absurd h hsome, fun h => absurd h hsome,
      fun h => absurd h hsome⟩
    · rw [refusesSymbol_iff_of_none hs, hcall, Except.error.injEq, eq_comm]
    · rw [hcall] at h
      cases h
    · obtain rfl := (refusesSymbol_iff_of_none hs).mp h
      refine ⟨after_eq_of_call_eq_error hcall, ?_⟩
      rw [Table.tryRecordSymbolInPlace, hparse]
      rfl
  | some r =>
    have hparse : Relation.parse symbol = .ok r := Relation.parse_eq_ok_iff.mpr hs
    have hcall : g.call (.tryRecordSymbol a b symbol) = g.call (.tryRecord ⟨a, r, b⟩) :=
      call_tryRecordSymbol_of_some hs
    have hplain : g.call (.recordSymbol a b symbol) = g.call (.record ⟨a, r, b⟩) := by
      rw [call_recordSymbol, Relation.ofSymbol_of_ofSymbol? hs]
    have hplace : Table.tryRecordSymbolInPlace a b symbol = Table.tryRecordInPlace ⟨a, r, b⟩ := by
      rw [Table.tryRecordSymbolInPlace, hparse]
      rfl
    rw [hplace, refusesSymbol_eq_of_some hs]
    exact (g.guarded_tryRecord ⟨a, r, b⟩).of_call_eq hcall hplain

/-- **When a careful call is refused, and that it then changes nothing.** -/
theorem guarded_of_careful (g : Graph ν) :
    (∀ f, g.Guarded (.tryRecord f) (.record f) (Table.tryRecordInPlace f) (g.table.Refuses f)) ∧
    ∀ a b symbol, g.Guarded (.tryRecordSymbol a b symbol) (.recordSymbol a b symbol)
      (Table.tryRecordSymbolInPlace a b symbol) (RefusesSymbol g.table a b symbol) :=
  ⟨g.guarded_tryRecord, g.guarded_tryRecordSymbol⟩

end Graph

end RuleOrder
