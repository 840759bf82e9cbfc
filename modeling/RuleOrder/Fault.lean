import RuleOrder.Fact
import RuleOrder.Text.Quoted

/-!
# Faults

What an exact operation can refuse, each with what its message names. The lenient operations
never fail, and a refusal leaves everything as it was.
-/

namespace RuleOrder

inductive Fault where
  /-- The stop of an address lies before its start. -/
  | invertedRange (start stop : UInt32)
  /-- A node's id is already in the list of nodes. -/
  | duplicateId (id : String)
  /-- A fact denies the relation that is kept for the same two ids. -/
  | contradiction (fact : Fact) (kept : Relation)
  /-- A strict fact would put an id before itself. -/
  | cycle (fact : Fact)
  /-- A comparison left ids unseen beyond the depth to which it may search. -/
  | searchTooDeep (a b : String) (limit : UInt64)
  | unknownSymbol (symbol : String)
  deriving DecidableEq, Repr

namespace Fault

def message : Fault → String
  | invertedRange start stop =>
    "invalid range: end " ++ stop.toNat.repr ++ " is before start " ++ start.toNat.repr
  | duplicateId id => "duplicate node id: " ++ id
  | contradiction fact kept =>
    "contradictory relation " ++ fact.text ++ ": already recorded as "
      ++ (Fact.mk fact.subject kept fact.object).text
  | cycle fact => "cycle detected: " ++ fact.text ++ " closes an ordering cycle"
  | searchTooDeep a b limit =>
    "comparison of " ++ a ++ " and " ++ b ++ " exceeded the search depth of "
      ++ limit.toNat.repr
  | unknownSymbol symbol => "unknown relation symbol: " ++ quoted symbol

/-- Whether the fault lies in a fact, or in the symbol that was to give its relation. -/
def isAboutFact : Fault → Bool
  | contradiction .. | cycle .. | unknownSymbol .. => true
  | _ => false

end Fault

/-- The exact reading of a symbol, with the fault of one that has none. -/
def Relation.parse (s : String) : Except Fault Relation :=
  match ofSymbol? s with
  | some r => .ok r
  | none => .error (.unknownSymbol s)

theorem Relation.parse_eq_ok_iff {s : String} {r : Relation} :
    parse s = .ok r ↔ ofSymbol? s = some r := by
  unfold parse
  split <;> simp_all

theorem Relation.parse_of_eq_none {s : String} (h : ofSymbol? s = none) :
    parse s = .error (.unknownSymbol s) := by
  rw [parse, h]

end RuleOrder
