import RuleOrder.Graph.Call

/-!
Where graphs come from.

A graph is made from nodes in one of four ways, and nothing is known of any id in it. Whatever
else it becomes, it becomes by calls.
-/

namespace RuleOrder

namespace Graph

variable {ν : Type} [Identified ν]

/-- The graphs that are made from nodes. -/
inductive Made : Graph ν → Prop
  | empty : Made ∅
  | ofNodes (nodes : List ν) : Made (ofNodes nodes)
  | withDepth (nodes : List ν) (maxDepth : UInt64) : Made (withDepth nodes maxDepth)
  | tryOfNodes {nodes : List ν} {g : Graph ν} (h : tryOfNodes nodes = .ok g) : Made g

theorem Made.table_eq {g : Graph ν} (h : g.Made) : g.table = ∅ := by
  cases h with
  | empty => rfl
  | ofNodes => rfl
  | withDepth => rfl
  | @tryOfNodes nodes _ h =>
    unfold Graph.tryOfNodes at h
    split at h
    · simp at h
    · cases h
      rfl

/-- The graph after some calls in turn, of which none is refused. -/
def granting (g : Graph ν) (cs : List (Call ν)) : Except Fault (Graph ν) := cs.foldlM call g

theorem run_of_granting {g g' : Graph ν} {cs : List (Call ν)} (h : g.granting cs = .ok g') :
    g.run cs = g' := by
  induction cs generalizing g with
  | nil => exact Except.ok.inj h
  | cons c cs ih =>
    unfold granting at h
    rw [List.foldlM_cons] at h
    cases hc : g.call c with
    | error fault =>
      rw [hc] at h
      cases h
    | ok g₁ =>
      rw [hc] at h
      rw [run_cons, after, hc]
      exact ih h

/-! ### Calls by their facts -/

theorem call_recordSymbol (g : Graph ν) (a b s : String) :
    g.call (.recordSymbol a b s) = g.call (.record ⟨a, .ofSymbol s, b⟩) := rfl

theorem call_tryRecord (g : Graph ν) (f : Fact) :
    g.call (.tryRecord f) = g.withTable <$> g.table.tryRecord f := rfl

theorem call_tryRecord_of_granted {g : Graph ν} {f : Fact} (h : g.table.refusal? f = none) :
    g.call (.tryRecord f) = .ok (g.withTable (g.table.record f)) := by
  rw [call_tryRecord, Table.tryRecord_eq_ok_iff.mpr ⟨h, rfl⟩]
  rfl

theorem call_tryRecord_of_refused {g : Graph ν} {f : Fact} {fault : Fault}
    (h : g.table.refusal? f = some fault) : g.call (.tryRecord f) = .error fault := by
  rw [call_tryRecord, Table.tryRecord_eq_error_iff.mpr h]
  rfl

theorem call_tryRecordSymbol (g : Graph ν) (a b s : String) :
    g.call (.tryRecordSymbol a b s) =
      (Relation.parse s >>= fun r => g.call (.tryRecord ⟨a, r, b⟩)) := rfl

theorem call_tryRecordSymbol_of_ok {g : Graph ν} {a b s : String} {r : Relation}
    (h : Relation.parse s = .ok r) :
    g.call (.tryRecordSymbol a b s) = g.call (.tryRecord ⟨a, r, b⟩) := by
  rw [call_tryRecordSymbol, h]
  rfl

theorem call_tryRecordSymbol_of_error {g : Graph ν} {a b s : String} {fault : Fault}
    (h : Relation.parse s = .error fault) :
    g.call (.tryRecordSymbol a b s) = .error fault := by
  rw [call_tryRecordSymbol, h]
  rfl

theorem call_tryRecordSymbol_of_some {g : Graph ν} {a b s : String} {r : Relation}
    (h : Relation.ofSymbol? s = some r) :
    g.call (.tryRecordSymbol a b s) = g.call (.tryRecord ⟨a, r, b⟩) :=
  call_tryRecordSymbol_of_ok (Relation.parse_eq_ok_iff.mpr h)

theorem call_tryRecordSymbol_of_none {g : Graph ν} {a b s : String}
    (h : Relation.ofSymbol? s = none) :
    g.call (.tryRecordSymbol a b s) = .error (.unknownSymbol s) :=
  call_tryRecordSymbol_of_error (Relation.parse_of_eq_none h)

end Graph

namespace Table

@[simp] theorem relation_empty (a b : String) : (∅ : Table).relation a b = none := rfl

@[simp] theorem weight_empty (a : String) : (∅ : Table).weight a = none := rfl

end Table

end RuleOrder
