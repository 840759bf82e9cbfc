import RuleOrder.Graph.Basic

/-!
# Calls

Everything that can be done to a graph, as data. A call either gives the changed graph or is
refused, and a refused call leaves the graph as it was. So a graph that was ever reached is the
outcome of a list of calls on one that was made from nodes.
-/

namespace RuleOrder

inductive Call (ν : Type) where
  | record (fact : Fact)
  /-- Record what a symbol says by its lenient reading. -/
  | recordSymbol (a b symbol : String)
  | tryRecord (fact : Fact)
  /-- Record with care what a symbol says by its exact reading. -/
  | tryRecordSymbol (a b symbol : String)
  | setWeight (id : String) (weight : Int64)
  | derive
  | pushNode (node : ν)
  | tryPushNode (node : ν)
  deriving DecidableEq, Repr

namespace Graph

variable {ν : Type}

/-- Change what is known of ids, and leave the nodes. -/
def withTable (g : Graph ν) (table : Table) : Graph ν := { g with table }

variable [Identified ν]

/-- The graph after a call, or the fault for which the call is refused. -/
def call (g : Graph ν) : Call ν → Except Fault (Graph ν)
  | .record f => .ok (g.withTable (g.table.record f))
  | .recordSymbol a b s => .ok (g.withTable (g.table.record ⟨a, .ofSymbol s, b⟩))
  | .tryRecord f => g.withTable <$> g.table.tryRecord f
  | .tryRecordSymbol a b s => do
    let r ← Relation.parse s
    g.withTable <$> g.table.tryRecord ⟨a, r, b⟩
  | .setWeight id w => .ok (g.withTable (g.table.setWeight id w))
  | .derive => .ok (g.withTable g.table.derive)
  | .pushNode node => .ok (g.pushNode node)
  | .tryPushNode node => g.tryPushNode node

/-- The graph after a call, the same as before when the call is refused. -/
def after (g : Graph ν) (c : Call ν) : Graph ν :=
  match g.call c with
  | .ok g' => g'
  | .error _ => g

/-- The graph after some calls in turn. -/
def run (g : Graph ν) (cs : List (Call ν)) : Graph ν := cs.foldl after g

/-- The events of a call that is not refused. -/
def granted (g : Graph ν) : Call ν → List Event
  | .record f | .tryRecord f => g.table.recordEvents f
  | .recordSymbol a b s | .tryRecordSymbol a b s => g.table.recordEvents ⟨a, .ofSymbol s, b⟩
  | .setWeight id w => [.weighted id w]
  | .derive => g.table.deriveEvents
  | .pushNode _ | .tryPushNode _ => []

/-- The events of a call. -/
def events (g : Graph ν) (c : Call ν) : List Event :=
  match g.call c with
  | .ok _ => g.granted c
  | .error _ => []

/-- The events of some calls in turn. -/
def runEvents (g : Graph ν) : List (Call ν) → List Event
  | [] => []
  | c :: cs => g.events c ++ (g.after c).runEvents cs

@[simp] theorem run_nil (g : Graph ν) : g.run [] = g := rfl

@[simp] theorem run_cons (g : Graph ν) (c : Call ν) (cs : List (Call ν)) :
    g.run (c :: cs) = (g.after c).run cs := rfl

theorem run_append (g : Graph ν) (cs ds : List (Call ν)) :
    g.run (cs ++ ds) = (g.run cs).run ds :=
  List.foldl_append

theorem after_eq_of_call_eq_error {g : Graph ν} {c : Call ν} {fault : Fault}
    (h : g.call c = .error fault) : g.after c = g := by
  simp [after, h]

theorem events_eq_of_call_eq_error {g : Graph ν} {c : Call ν} {fault : Fault}
    (h : g.call c = .error fault) : g.events c = [] := by
  simp [events, h]

end Graph

end RuleOrder
