import RuleOrder.Event
import RuleOrder.Table.Compare
import RuleOrder.Table.Derive

/-!
# What a table reports

The events of each operation, as a list beside the operation itself. Every written side of a
fact is reported, and it is the last to be reported for its two ids, so the events tell the
relations of the table in full.
-/

namespace RuleOrder

namespace Table

/-- The event of writing one side of a fact. -/
def writeEvent (t : Table) (f : Fact) : Event :=
  match t.relation f.subject f.object with
  | some old => if old = f.relation then .connected f else .overwritten f old
  | none => .connected f

/-- The events of writing some sides in turn. -/
def writeEvents (t : Table) : List Fact → List Event
  | [] => []
  | f :: rest => t.writeEvent f :: (t.write f).writeEvents rest

def recordEvents (t : Table) (f : Fact) : List Event := (t.introduce f).writeEvents f.sides

def deriveEvents (t : Table) : List Event :=
  t.writeEvents (t.derived.flatMap Fact.sides) ++
    [.derived t.equalities.length t.derived.length]

/-- The events of an exact comparison: an answer is reported that was found on a walk. -/
def tryCompareEvents (t : Table) (limit : UInt64) (a b : String) (avoiding : List String) :
    List Event :=
  match t.search limit a b avoiding with
  | .via r node depth => [.answered ⟨a, r, b⟩ node depth]
  | _ => []

/-- The events of a lenient comparison, which also reports that it was given up. -/
def compareEvents (t : Table) (limit : UInt64) (a b : String) (avoiding : List String) :
    List Event :=
  match t.search limit a b avoiding with
  | .via r node depth => [.answered ⟨a, r, b⟩ node depth]
  | .undecided => [.givenUp a b limit]
  | _ => []

theorem length_writeEvents (t : Table) (fs : List Fact) :
    (t.writeEvents fs).length = fs.length := by
  induction fs generalizing t with
  | nil => rfl
  | cons f rest ih => simp [writeEvents, ih]

theorem writeEvents_append (t : Table) (fs gs : List Fact) :
    t.writeEvents (fs ++ gs) = t.writeEvents fs ++ (t.writeAll fs).writeEvents gs := by
  induction fs generalizing t with
  | nil => rfl
  | cons f rest ih => simp [writeEvents, ih]

end Table

end RuleOrder
