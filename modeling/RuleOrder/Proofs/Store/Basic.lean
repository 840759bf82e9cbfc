import Mathlib.Data.Nat.Notation
import Mathlib.Logic.Function.Basic
import RuleOrder.Graph.Call

/-!
# Tables by number

A store keeps by number what a table keeps by id. The ids stand in one list, and the place of an
id there is its number; rows, weights and equalities speak of numbers only. The numbers have no
bound here, so every id can be given one: an arena that hands out numbers of 32 bits fails at the
next id after `2 ^ 32` of them, and this limit is left out. A reading can go astray, where a
number has no row or no id. Every operation fails with the first reading of it that does, and an
answer of an operation is therefore a proof that none did.
-/

namespace RuleOrder

/-- What a reading failed to find. -/
inductive Astray where
  | row (n : ℕ)
  | id (n : ℕ)
  deriving DecidableEq, Repr

abbrev Reading := Except Astray

namespace Walk

variable {α : Type} [DecidableEq α]

/-- `layers` along successors that have to be read. -/
def readLayers (next : α → Reading (List α)) :
    ℕ → List α → List α → Reading (List (List α))
  | 0, _, _ => return []
  | n + 1, seen, layer => do
    match fresh seen (← layer.mapM next).flatten with
    | [] => return []
    | x :: xs => return (x :: xs) :: (← readLayers next n (x :: xs ++ seen) (x :: xs))

end Walk

@[ext]
structure Store where
  ids : List String := []
  rows : List (List (ℕ × Relation)) := []
  weights : ℕ → Option Int64 := fun _ => none
  equalities : List (ℕ × ℕ) := []

namespace Store

instance : EmptyCollection Store := ⟨{}⟩

/-! ### Readings -/

/-- The number of an id, if it has one. -/
def number? (s : Store) (a : String) : Option ℕ :=
  if a ∈ s.ids then some (s.ids.idxOf a) else none

def row (s : Store) (n : ℕ) : Reading (List (ℕ × Relation)) :=
  match s.rows[n]? with
  | some row => return row
  | none => throw (.row n)

def id (s : Store) (n : ℕ) : Reading String :=
  match s.ids[n]? with
  | some a => return a
  | none => throw (.id n)

theorem row_eq_ok_iff {s : Store} {n : ℕ} {row : List (ℕ × Relation)} :
    s.row n = .ok row ↔ s.rows[n]? = some row := by
  unfold Store.row
  cases s.rows[n]? with
  | none => exact iff_of_false nofun nofun
  | some _ => exact ⟨fun h => congrArg some (Except.ok.inj h),
      fun h => congrArg Except.ok (Option.some.inj h)⟩

theorem id_eq_ok_iff {s : Store} {n : ℕ} {a : String} : s.id n = .ok a ↔ s.ids[n]? = some a := by
  unfold Store.id
  cases s.ids[n]? with
  | none => exact iff_of_false nofun nofun
  | some _ => exact ⟨fun h => congrArg some (Except.ok.inj h),
      fun h => congrArg Except.ok (Option.some.inj h)⟩

/-- Some entries with the ids of their peers. -/
def named (s : Store) (es : List (ℕ × Relation)) : Reading (List (String × Relation)) :=
  es.mapM fun e => return (← s.id e.1, e.2)

/-! ### Changes -/

/-- Give an id a number and a row, if it has none. -/
def intern (s : Store) (a : String) : Store × ℕ :=
  let ids := if a ∈ s.ids then s.ids else s.ids ++ [a]
  let rows := s.rows ++ List.replicate (ids.length - s.rows.length) []
  ({ s with ids, rows }, ids.idxOf a)

/-- Write one side of a fact, and read the ids of both numbers to report it. -/
def write (s : Store) (m n : ℕ) (r : Relation) : Reading Store := do
  let row ← s.row m
  let _ ← s.id m
  let _ ← s.id n
  let rows := s.rows.set m (Register.overwrite n r row)
  if r = .equal then
    return { s with
      rows
      weights := Function.update s.weights m ((s.weights m).or (s.weights n))
      equalities := s.equalities ++ [(m, n)] }
  else
    return { s with rows }

/-- Write a fact from its sides. -/
def link (s : Store) (m n : ℕ) (r : Relation) : Reading Store := do
  let s ← s.write m n r
  if r.isStrict then s.write n m r.inverse else return s

def record (s : Store) (f : Fact) : Reading Store :=
  let (s, m) := s.intern f.subject
  let (s, n) := s.intern f.object
  s.link m n f.relation

def setWeight (s : Store) (a : String) (w : Int64) : Store :=
  let (s, n) := s.intern a
  { s with weights := Function.update s.weights n (some w) }

/-- Let the first of two numbers take over the strict relations of the second. -/
def inherit (s : Store) (p : ℕ × ℕ) : Reading Store := do
  let row ← s.row p.2
  (row.filter fun e => e.2.isStrict).foldlM (fun s e => s.link p.1 e.1 e.2) s

def derive (s : Store) : Reading Store := s.equalities.foldlM inherit s

/-! ### Queries -/

def weight (s : Store) (a : String) : Option Int64 := (s.number? a).bind s.weights

/-- The relation that is written for two numbers, if both are there. -/
def edge (s : Store) : Option ℕ → Option ℕ → Reading (Option Relation)
  | some m, some n => return (← s.row m).lookup n
  | _, _ => return none

def relation (s : Store) (a b : String) : Reading (Option Relation) :=
  s.edge (s.number? a) (s.number? b)

def relationsOf (s : Store) (a : String) : Reading (List (String × Relation)) :=
  match s.number? a with
  | some m => do s.named (← s.row m)
  | none => return []

def namedEqualities (s : Store) : Reading (List (String × String)) :=
  s.equalities.mapM fun p => return (← s.id p.1, ← s.id p.2)

/-- The rows that hold some relation, with the ids of their numbers. -/
def shownRows (s : Store) : Reading (List (String × Option Int64 × List (String × Relation))) :=
  (s.rows.zipIdx.filter fun e => !e.1.isEmpty).mapM fun e =>
    return (← s.id e.2, s.weights e.2, ← s.named e.1)

/-- What is known at once of two numbers. -/
def resolve (s : Store) (m n : Option ℕ) : Reading (Option Relation) :=
  match m.bind s.weights, n.bind s.weights with
  | some v, some w => return some (.ofOrdering (compare v w))
  | some v, none => if v = alwaysFirst then return some .less else s.edge m n
  | none, _ => s.edge m n

def successors (s : Store) (m : ℕ) : Reading (List ℕ) :=
  return ((← s.row m).filter fun e => e.2 = .less).map Prod.fst

def firstAnswer (s : Store) (n : ℕ) (layers : List (List ℕ)) :
    Reading (Option (Relation × ℕ × ℕ)) :=
  (layers.zipIdx 1).findSomeM? fun (layer, depth) =>
    layer.findSomeM? fun m => return (← s.resolve (some m) (some n)).map fun r => (r, m, depth)

def search (s : Store) (limit : UInt64) (a b : String) (avoiding : List String) :
    Reading Verdict := do
  match ← s.resolve (s.number? a) (s.number? b) with
  | some r => return .direct r
  | none =>
    match s.number? a, s.number? b with
    | some m, some n =>
      let seen := m :: n :: avoiding.filterMap s.number?
      let layers ← Walk.readLayers s.successors (limit.toNat + 1) seen [m]
      match ← s.firstAnswer n (layers.take limit.toNat) with
      | some (r, k, depth) => return .via r (← s.id k) depth
      | none => return if limit.toNat < layers.length then .undecided else .unrelated
    | _, _ => return .unrelated

/-! ### Changes with care -/

def precedes (s : Store) (a b : String) : Reading Bool :=
  match s.number? a, s.number? b with
  | some m, some n => do
    let layers ← Walk.readLayers s.successors s.ids.length [m] [m]
    let next ← (m :: layers.flatten).mapM s.successors
    return decide (n ∈ next.flatten)
  | _, _ => return false

def contradiction? (s : Store) (f : Fact) : Reading (Option Fault) := do
  match ← s.relation f.subject f.object with
  | some kept => return if kept = f.relation then none else some (.contradiction f kept)
  | none => return none

def closesCycle (s : Store) (f : Fact) : Reading Bool :=
  match f.relation with
  | .less => return decide (f.subject = f.object) || (← s.precedes f.object f.subject)
  | .equal => return false
  | .greater => return decide (f.subject = f.object) || (← s.precedes f.subject f.object)

def refusal? (s : Store) (f : Fact) : Reading (Option Fault) := do
  match ← s.contradiction? f with
  | some fault => return some fault
  | none =>
    if f.relation.isStrict then
      match ← s.contradiction? f.converse with
      | some fault => return some fault
      | none => return if ← s.closesCycle f then some (.cycle f) else none
    else return none

/-- Take in a fact, or stay as it is where the fact is refused. -/
def tryRecord (s : Store) (f : Fact) : Reading Store := do
  match ← s.refusal? f with
  | some _ => return s
  | none => s.record f

/-! ### Calls -/

variable {ν : Type}

/-- The store after a call. -/
def after (s : Store) : Call ν → Reading Store
  | .record f => s.record f
  | .recordSymbol a b symbol => s.record ⟨a, .ofSymbol symbol, b⟩
  | .tryRecord f => s.tryRecord f
  | .tryRecordSymbol a b symbol =>
    match Relation.ofSymbol? symbol with
    | some r => s.tryRecord ⟨a, r, b⟩
    | none => return s
  | .setWeight a w => return s.setWeight a w
  | .derive => s.derive
  | .pushNode _ | .tryPushNode _ => return s

/-- The store after some calls in turn. -/
def run (s : Store) (cs : List (Call ν)) : Reading Store := cs.foldlM after s

end Store

end RuleOrder
