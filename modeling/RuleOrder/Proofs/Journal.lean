import Mathlib.Data.Nat.Notation
import Mathlib.Tactic.SplitIfs
import RuleOrder.Proofs.Made

/-!
A table that reports as it goes.

A journal is changed one side of a fact at a time, and each time it reports what it wrote and
what stood there before. So what is reported comes from the midst of the larger operations: a
strict fact reports the converse when its own side is already written, and a subject that
inherits reads from a table that what it inherited has changed. The operations on a graph that
write all sides at once report the same in the same order.
-/

namespace RuleOrder

/-- A table, and what it has reported since it was opened. -/
structure Journal where
  table : Table := ∅
  log : List Event := []

namespace Journal

instance : EmptyCollection Journal := ⟨{}⟩

/-! ### Steps -/

def report (j : Journal) (e : Event) : Journal := { j with log := j.log ++ [e] }

/-- Write one side of a fact, and report whether another relation stood in its place. -/
def write (j : Journal) (f : Fact) : Journal :=
  let written : Journal := { j with table := j.table.write f }
  match j.table.relation f.subject f.object with
  | some old =>
    if old = f.relation then written.report (.connected f)
    else written.report (.overwritten f old)
  | none => written.report (.connected f)

/-- Write a fact, and then its converse if it is strict. -/
def link (j : Journal) (f : Fact) : Journal :=
  if f.relation.isStrict then (j.write f).write f.converse else j.write f

def record (j : Journal) (f : Fact) : Journal :=
  link { j with table := (j.table.intern f.subject).intern f.object } f

def tryRecord (j : Journal) (f : Fact) : Journal :=
  match j.table.refusal? f with
  | some _ => j
  | none => j.record f

def setWeight (j : Journal) (id : String) (w : Int64) : Journal :=
  report { j with table := j.table.setWeight id w } (.weighted id w)

/-- Let the first of two ids take over the strict relations of the second, and count them with
those that were taken over before. -/
def inherit (s : Journal × ℕ) (p : String × String) : Journal × Nat :=
  let facts := s.1.table.inherited p.1 p.2
  (facts.foldl link s.1, s.2 + facts.length)

def derive (j : Journal) : Journal :=
  let (derived, n) := j.table.equalities.foldl inherit (j, 0)
  derived.report (.derived j.table.equalities.length n)

section Calls

variable {ν : Type}

def after (j : Journal) : Call ν → Journal
  | .record f => j.record f
  | .recordSymbol a b symbol => j.record ⟨a, .ofSymbol symbol, b⟩
  | .tryRecord f => j.tryRecord f
  | .tryRecordSymbol a b symbol =>
    match Relation.ofSymbol? symbol with
    | some r => j.tryRecord ⟨a, r, b⟩
    | none => j
  | .setWeight id w => j.setWeight id w
  | .derive => j.derive
  | .pushNode _ | .tryPushNode _ => j

def run (j : Journal) (cs : List (Call ν)) : Journal := cs.foldl after j

end Calls

/-! ### What is written and what is reported -/

variable {j : Journal} {f : Fact} {fs : List Fact}

lemma write_eq (j : Journal) (f : Fact) :
    j.write f = ⟨j.table.write f, j.log ++ [j.table.writeEvent f]⟩ := by
  unfold write Table.writeEvent
  cases j.table.relation f.subject f.object with
  | none => rfl
  | some old =>
    dsimp only
    split_ifs <;> rfl

lemma foldl_write (j : Journal) (fs : List Fact) :
    fs.foldl write j = ⟨j.table.writeAll fs, j.log ++ j.table.writeEvents fs⟩ := by
  induction fs generalizing j with
  | nil => simp [Table.writeEvents]
  | cons f fs ih => simp [ih, write_eq, Table.writeEvents]

lemma link_eq_foldl (j : Journal) (f : Fact) : j.link f = f.sides.foldl write j := by
  unfold link Fact.sides
  split_ifs <;> rfl

lemma foldl_link (j : Journal) (fs : List Fact) :
    fs.foldl link j = (fs.flatMap Fact.sides).foldl write j := by
  rw [List.foldl_flatMap]
  exact congrArg (fun op => fs.foldl op j) (funext fun j => funext j.link_eq_foldl)

lemma record_eq (j : Journal) (f : Fact) :
    j.record f = ⟨j.table.record f, j.log ++ j.table.recordEvents f⟩ := by
  rw [record, link_eq_foldl, foldl_write]
  rfl

lemma foldl_inherit (j : Journal) (n : ℕ) (ps : List (String × String)) :
    ps.foldl inherit (j, n) =
      (((j.table.derivation ps).flatMap Fact.sides).foldl write j,
        n + (j.table.derivation ps).length) := by
  induction ps generalizing j n with
  | nil => rfl
  | cons p ps ih =>
    have htable : ((j.table.inherited p.1 p.2).foldl link j).table =
        j.table.writeAll ((j.table.inherited p.1 p.2).flatMap Fact.sides) := by
      rw [foldl_link, foldl_write]
    rw [List.foldl_cons, inherit, ih, htable, Table.derivation, List.flatMap_append,
      List.foldl_append, List.length_append, foldl_link, Nat.add_assoc]

lemma derive_eq (j : Journal) :
    j.derive = ⟨j.table.derive, j.log ++ j.table.deriveEvents⟩ := by
  simp only [derive, foldl_inherit, foldl_write, report, Table.deriveEvents, Table.derive,
    Table.derived, List.append_assoc, Nat.zero_add]

end Journal

namespace Graph

variable {ν : Type} [Identified ν] {g : Graph ν}

/-- The journal of a graph that has reported `log` so far. -/
def journal (g : Graph ν) (log : List Event) : Journal := ⟨g.table, log⟩

lemma journal_tryRecord (g : Graph ν) (log : List Event) (f : Fact) :
    (g.journal log).tryRecord f =
      (g.after (.tryRecord f)).journal (log ++ g.events (.tryRecord f)) := by
  unfold Journal.tryRecord journal
  cases h : g.table.refusal? f with
  | some fault =>
    have hcall := call_tryRecord_of_refused h
    simp only [after_eq_of_call_eq_error hcall, events_eq_of_call_eq_error hcall,
      List.append_nil]
  | none =>
    have hcall := call_tryRecord_of_granted h
    simp only [Journal.record_eq, after, events, hcall]
    rfl

/-- **One call** changes and reports the same as its steps do one by one. -/
lemma journal_after (g : Graph ν) (log : List Event) (c : Call ν) :
    (g.journal log).after c = (g.after c).journal (log ++ g.events c) := by
  cases c with
  | record f => exact Journal.record_eq _ f
  | recordSymbol a b s => exact Journal.record_eq _ ⟨a, .ofSymbol s, b⟩
  | tryRecord f => exact g.journal_tryRecord log f
  | tryRecordSymbol a b s =>
    cases hs : Relation.ofSymbol? s with
    | none =>
      have hstep : (g.journal log).after (.tryRecordSymbol a b s : Call ν) = g.journal log := by
        simp only [Journal.after, hs]
      have hcall : g.call (.tryRecordSymbol a b s) = .error (.unknownSymbol s) :=
        call_tryRecordSymbol_of_none hs
      rw [hstep, after_eq_of_call_eq_error hcall, events_eq_of_call_eq_error hcall,
        List.append_nil]
    | some r =>
      have hstep : (g.journal log).after (.tryRecordSymbol a b s : Call ν) =
          (g.journal log).tryRecord ⟨a, r, b⟩ := by
        simp only [Journal.after, hs]
      have hcall : g.call (.tryRecordSymbol a b s) = g.call (.tryRecord ⟨a, r, b⟩) :=
        call_tryRecordSymbol_of_some hs
      have hafter : g.after (.tryRecordSymbol a b s) = g.after (.tryRecord ⟨a, r, b⟩) := by
        rw [after, hcall, after]
      have hevents : g.events (.tryRecordSymbol a b s) = g.events (.tryRecord ⟨a, r, b⟩) := by
        rw [events, hcall, events, granted, granted, Relation.ofSymbol_of_ofSymbol? hs]
      rw [hstep, hafter, hevents]
      exact g.journal_tryRecord log ⟨a, r, b⟩
  | setWeight id w => rfl
  | derive => exact Journal.derive_eq _
  | pushNode node => exact congrArg (Journal.mk g.table) (List.append_nil log).symm
  | tryPushNode node =>
    have hevents : g.events (.tryPushNode node) = [] := by
      unfold events
      split <;> rfl
    have htable : (g.after (.tryPushNode node)).table = g.table := by
      rw [after, call, tryPushNode]
      split_ifs <;> rfl
    rw [hevents, List.append_nil]
    exact congrArg (Journal.mk · log) htable.symm

/-- **A run** changes and reports the same as all its steps do one by one. -/
theorem journal_run (g : Graph ν) (log : List Event) (cs : List (Call ν)) :
    (g.journal log).run cs = (g.run cs).journal (log ++ g.runEvents cs) := by
  induction cs generalizing g log with
  | nil => exact congrArg (Journal.mk g.table) (List.append_nil log).symm
  | cons c cs ih =>
    rw [Journal.run, List.foldl_cons, journal_after, run_cons, runEvents, ← List.append_assoc]
    exact ih (g.after c) _

end Graph

end RuleOrder
