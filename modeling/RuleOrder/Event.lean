import RuleOrder.Fault

/-!
# Events

What a table reports as it is changed and asked. Ordinary steps are reported at the level of a
trace; what may surprise (an overwritten relation, a search cut short) and the summary of a
derivation, at that of debugging.
-/

namespace RuleOrder

inductive Level where
  | trace
  | debug
  deriving DecidableEq, Repr

def Level.name : Level → String
  | trace => "TRACE"
  | debug => "DEBUG"

inductive Event where
  /-- A side of a fact was written where nothing else stood. -/
  | connected (fact : Fact)
  /-- A side of a fact was written in place of another relation. -/
  | overwritten (fact : Fact) (old : Relation)
  | weighted (id : String) (weight : Int64)
  /-- So many equalities were followed, and so many facts inherited. -/
  | derived (equalities facts : Nat)
  /-- A comparison was answered by a node of its walk. -/
  | answered (fact : Fact) (node : String) (depth : Nat)
  /-- A comparison was given up for lack of depth. -/
  | givenUp (a b : String) (limit : UInt64)
  deriving DecidableEq, Repr

namespace Event

def level : Event → Level
  | connected _ | weighted .. | answered .. => .trace
  | overwritten .. | derived .. | givenUp .. => .debug

def text : Event → String
  | connected fact => "connect " ++ fact.text
  | overwritten fact old =>
    "overwrite " ++ (Fact.mk fact.subject old fact.object).text ++ " with "
      ++ fact.relation.symbol
  | weighted id weight => "weight " ++ id ++ " = " ++ weight.toInt.repr
  | derived equalities facts =>
    "derived equal relations: " ++ equalities.repr ++ " pairs, " ++ facts.repr
      ++ " edges inherited"
  | answered fact node depth => fact.text ++ " via " ++ node ++ " at depth " ++ depth.repr
  | givenUp a b limit => (Fault.searchTooDeep a b limit).message

/-- The text with the mark of the component that reports it. -/
def message (e : Event) : String := "[GRAPH] " ++ e.text

end Event

end RuleOrder
