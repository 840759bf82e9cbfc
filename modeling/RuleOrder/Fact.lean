import RuleOrder.Relation

/-!
# Facts

A fact says how one id stands to another. Its converse says the same from the other id's
side. A strict fact is kept from both of its sides, a level one as it was said.
-/

namespace RuleOrder

structure Fact where
  subject : String
  relation : Relation
  object : String
  deriving DecidableEq, Repr, Inhabited

namespace Fact

def converse (f : Fact) : Fact := ⟨f.object, f.relation.inverse, f.subject⟩

/-- The sides from which the fact is kept. -/
def sides (f : Fact) : List Fact := if f.relation.isStrict then [f, f.converse] else [f]

def text (f : Fact) : String := f.subject ++ " " ++ f.relation.symbol ++ " " ++ f.object

@[simp] theorem converse_converse (f : Fact) : f.converse.converse = f := by
  simp [converse]

theorem mem_sides {f g : Fact} :
    g ∈ f.sides ↔ g = f ∨ f.relation.isStrict = true ∧ g = f.converse := by
  unfold sides
  split <;> simp_all

end Fact

end RuleOrder
