import RuleOrder.MergeSort
import RuleOrder.Repeats
import RuleOrder.Source.Scope
import RuleOrder.Table.Derive
import RuleOrder.Table.Log
import RuleOrder.Table.Strict

/-!
# Graphs

A graph is a list of nodes to be put in order, a table of facts about ids, and the depth to
which a comparison may search. Nodes are anything that has an id. The nodes and the facts know
nothing of each other: a fact may name ids of no node, a node may have an id that no fact
names, and several nodes may have the same id.
-/

namespace RuleOrder

/-- What has an id by which facts can name it. -/
class Identified (ν : Type) where
  id : ν → String

instance : Identified String := ⟨fun s => s⟩

instance : Identified Scope := ⟨Scope.id⟩

/-- How many steps a comparison may take, unless told otherwise. -/
def defaultDepth : UInt64 := 64

structure Graph (ν : Type) where
  nodes : List ν := []
  maxDepth : UInt64 := defaultDepth
  table : Table := ∅
  deriving DecidableEq, Repr, Inhabited

namespace Graph

variable {ν : Type}

instance : EmptyCollection (Graph ν) := ⟨{}⟩

/-- The graph of some nodes, of which no fact is known. -/
def ofNodes (nodes : List ν) : Graph ν := { nodes }

def withDepth (nodes : List ν) (maxDepth : UInt64) : Graph ν := { nodes, maxDepth }

def pushNode (g : Graph ν) (node : ν) : Graph ν := { g with nodes := g.nodes ++ [node] }

/-! ### Comparing -/

def compareAvoiding (g : Graph ν) (a b : String) (avoiding : List String) : Relation :=
  g.table.compareAvoiding g.maxDepth a b avoiding

def tryCompareAvoiding (g : Graph ν) (a b : String) (avoiding : List String) :
    Except Fault Relation :=
  g.table.tryCompareAvoiding g.maxDepth a b avoiding

def compare (g : Graph ν) (a b : String) : Relation := g.compareAvoiding a b []

def tryCompare (g : Graph ν) (a b : String) : Except Fault Relation :=
  g.tryCompareAvoiding a b []

/-! ### Nodes by their ids -/

variable [Identified ν]

/-- The graph of some nodes, refused when two of them have the same id. -/
def tryOfNodes (nodes : List ν) : Except Fault (Graph ν) :=
  match firstRepeat? (nodes.map Identified.id) with
  | some id => .error (.duplicateId id)
  | none => .ok (ofNodes nodes)

/-- Whether one of the nodes has this id. -/
def containsId (g : Graph ν) (id : String) : Bool :=
  g.nodes.any fun node => Identified.id node = id

/-- Add a node unless one of its id is there. -/
def tryPushNode (g : Graph ν) (node : ν) : Except Fault (Graph ν) :=
  if g.containsId (Identified.id node) then .error (.duplicateId (Identified.id node))
  else .ok (g.pushNode node)

theorem containsId_iff {g : Graph ν} {id : String} :
    g.containsId id = true ↔ id ∈ g.nodes.map Identified.id := by
  simp [containsId]

def compareNodes (g : Graph ν) (x y : ν) : Relation :=
  g.compare (Identified.id x) (Identified.id y)

/-! ### Putting the nodes in order -/

/-- The answer that sends a node ahead, in either direction. -/
def ahead (reversed : Bool) : Relation := if reversed then .greater else .less

/-- Whether `x` has to go before `y`. -/
def goesBefore (g : Graph ν) (reversed : Bool) (x y : ν) : Bool :=
  g.compareNodes x y = ahead reversed

theorem goesBefore_iff {g : Graph ν} {reversed : Bool} {x y : ν} :
    g.goesBefore reversed x y = true ↔ g.compareNodes x y = ahead reversed := by
  simp [goesBefore]

theorem goesBefore_eq_false_iff {g : Graph ν} {reversed : Bool} {x y : ν} :
    g.goesBefore reversed x y = false ↔ g.compareNodes x y ≠ ahead reversed := by
  simp [goesBefore]

/-- The nodes in order, from first to last or the other way round. -/
def ordered (g : Graph ν) (reversed : Bool) : List ν :=
  mergeSort (g.goesBefore reversed) g.nodes

def orderedEvents (g : Graph ν) (reversed : Bool) : List Event :=
  (mergeSortWithQueries (g.goesBefore reversed) g.nodes).2.flatMap fun (x, y) =>
    g.table.compareEvents g.maxDepth (Identified.id x) (Identified.id y) []

theorem ordered_perm (g : Graph ν) (reversed : Bool) : (g.ordered reversed).Perm g.nodes :=
  mergeSort_perm ..

end Graph

end RuleOrder
