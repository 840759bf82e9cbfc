import RuleOrder.Table.Compare

/-!
# Recording with care

The exact way to take in a fact refuses one that denies a relation already written for either
of its sides, and a strict one that would close a cycle, so that an id came before itself. The
cycle is looked for along `less`, from the id that is to come later to the one that is to come
first. Level facts close no cycle. A refusal changes nothing.
-/

namespace RuleOrder

namespace Table

/-- Whether a walk of one step or more along `less` leads from `a` to `b`. -/
def precedes (t : Table) (a b : String) : Bool :=
  decide (b ∈ (Walk.within t.successors t.ids.length a).flatMap t.successors)

/-- The fault of a fact that denies what is written for its subject and object. -/
def contradiction? (t : Table) (f : Fact) : Option Fault :=
  match t.relation f.subject f.object with
  | some kept => if kept = f.relation then none else some (.contradiction f kept)
  | none => none

/-- Whether a strict fact would put an id before itself. -/
def closesCycle (t : Table) (f : Fact) : Bool :=
  match f.relation with
  | .less => decide (f.subject = f.object) || t.precedes f.object f.subject
  | .equal => false
  | .greater => decide (f.subject = f.object) || t.precedes f.subject f.object

/-- The fault for which a fact is refused, if it is: a contradiction of its own side, then of
its converse, then a cycle. -/
def refusal? (t : Table) (f : Fact) : Option Fault :=
  (f.sides.findSome? t.contradiction?).or (if t.closesCycle f then some (.cycle f) else none)

/-- Take in a fact unless it is refused. -/
def tryRecord (t : Table) (f : Fact) : Except Fault Table :=
  match t.refusal? f with
  | some fault => .error fault
  | none => .ok (t.record f)

theorem contradiction?_eq_some_iff {t : Table} {f : Fact} {fault : Fault} :
    t.contradiction? f = some fault ↔
      ∃ kept, t.relation f.subject f.object = some kept ∧ kept ≠ f.relation ∧
        fault = .contradiction f kept := by
  unfold contradiction?
  split <;> grind

theorem tryRecord_eq_ok_iff {t u : Table} {f : Fact} :
    t.tryRecord f = .ok u ↔ t.refusal? f = none ∧ u = t.record f := by
  unfold tryRecord
  cases t.refusal? f <;> simp [eq_comm]

theorem tryRecord_eq_error_iff {t : Table} {f : Fact} {fault : Fault} :
    t.tryRecord f = .error fault ↔ t.refusal? f = some fault := by
  unfold tryRecord
  cases t.refusal? f <;> simp

end Table

end RuleOrder
