import RuleOrder.Fault
import RuleOrder.Table.Basic
import RuleOrder.Walk

/-!
# Comparing ids

Two ids are compared by what is known of them at once, if anything is: their weights when both
have one, the marker weight of the first, or else the relation written for the first. When
nothing is, the search walks from the first id along `less`, layer by layer, keeping clear of
both ids and of any others it is told to avoid, and the first node met of which something is
known against the second id gives the answer.

The walk may go as many steps as the limit says. Where it ends without an answer and nodes lay
beyond, the comparison is undecided; the exact form of it says so, the lenient one takes the
two ids for level, as it does with ids that nothing relates.
-/

namespace RuleOrder

/-- The weight that puts an id before every other, weighted or not. -/
def alwaysFirst : Int64 := Int64.minValue

/-- How a comparison came out. -/
inductive Verdict where
  /-- Something was known of the two ids at once. -/
  | direct (relation : Relation)
  /-- The answer was found at a node some steps from the first id. -/
  | via (relation : Relation) (node : String) (depth : Nat)
  /-- No answer within the limit, and nodes beyond it. -/
  | undecided
  /-- No answer, and nowhere else to look. -/
  | unrelated
  deriving DecidableEq, Repr

/-- The lenient reading: level, unless there is an answer. -/
def Verdict.relation : Verdict → Relation
  | direct r => r
  | via r _ _ => r
  | undecided => .equal
  | unrelated => .equal

namespace Table

/-- The ids that `a` is known to stand before, in the order in which they came. -/
def successors (t : Table) (a : String) : List String :=
  ((t.relationsOf a).filter fun e => e.2 = .less).map Prod.fst

/-- What is known at once of `a` against `b`. -/
def resolve (t : Table) (a b : String) : Option Relation :=
  match t.weight a, t.weight b with
  | some v, some w => some (.ofOrdering (compare v w))
  | some v, none => if v = alwaysFirst then some .less else t.relation a b
  | none, _ => t.relation a b

/-- The first node of some layers that resolves against `b`, and the depth of its layer, where
the first layer has depth one. -/
def firstAnswer (t : Table) (b : String) (layers : List (List String)) :
    Option (Relation × String × Nat) :=
  (layers.zipIdx 1).findSome? fun (layer, depth) =>
    layer.findSome? fun n => (t.resolve n b).map fun r => (r, n, depth)

/-- The comparison of `a` and `b`, going at most `limit` steps and through none of `avoiding`. -/
def search (t : Table) (limit : UInt64) (a b : String) (avoiding : List String) : Verdict :=
  match t.resolve a b with
  | some r => .direct r
  | none =>
    if a ∈ t.ids ∧ b ∈ t.ids then
      let layers := Walk.layers t.successors (limit.toNat + 1) (a :: b :: avoiding) [a]
      match t.firstAnswer b (layers.take limit.toNat) with
      | some (r, node, depth) => .via r node depth
      | none => if limit.toNat < layers.length then .undecided else .unrelated
    else .unrelated

/-- The lenient comparison. -/
def compareAvoiding (t : Table) (limit : UInt64) (a b : String) (avoiding : List String) :
    Relation :=
  (t.search limit a b avoiding).relation

/-- The exact comparison, which refuses to answer when the search was undecided. -/
def tryCompareAvoiding (t : Table) (limit : UInt64) (a b : String) (avoiding : List String) :
    Except Fault Relation :=
  match t.search limit a b avoiding with
  | .undecided => .error (.searchTooDeep a b limit)
  | v => .ok v.relation

theorem mem_successors {t : Table} {a b : String} :
    b ∈ t.successors a ↔ t.relation a b = some .less := by
  simp [successors, relation_eq_some_iff]

/-- The two forms of a comparison agree wherever the exact one answers. -/
theorem tryCompareAvoiding_eq_ok_iff {t : Table} {limit : UInt64} {a b : String}
    {avoiding : List String} {r : Relation} :
    t.tryCompareAvoiding limit a b avoiding = .ok r ↔
      t.search limit a b avoiding ≠ .undecided ∧ t.compareAvoiding limit a b avoiding = r := by
  unfold tryCompareAvoiding compareAvoiding
  split <;> simp_all

end Table

end RuleOrder
