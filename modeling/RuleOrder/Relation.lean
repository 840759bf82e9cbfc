/-!
# Relations

How one id stands to another: before it, level with it, or after it. The relation is *strict*
when it is not level. Seen from the other id it is inverted, and it says the same as an
`Ordering`.

Symbols are read in two ways. The lenient reading takes `<` and `>` at their word and any
other text for `=`; the exact one knows `<`, `>`, `=` and `==` and nothing else.
-/

namespace RuleOrder

inductive Relation where
  | less
  | equal
  | greater
  deriving DecidableEq, Hashable, Repr, Inhabited

namespace Relation

/-- The relation seen from the other side. -/
def inverse : Relation → Relation
  | less => greater
  | equal => equal
  | greater => less

def isStrict : Relation → Bool
  | equal => false
  | _ => true

def symbol : Relation → String
  | less => "<"
  | equal => "="
  | greater => ">"

/-- The lenient reading of a symbol. -/
def ofSymbol (s : String) : Relation :=
  if s = "<" then less else if s = ">" then greater else equal

/-- The exact reading of a symbol. -/
def ofSymbol? (s : String) : Option Relation :=
  if s = "<" then some less
  else if s = ">" then some greater
  else if s = "=" ∨ s = "==" then some equal
  else none

def ofOrdering : Ordering → Relation
  | .lt => less
  | .eq => equal
  | .gt => greater

def toOrdering : Relation → Ordering
  | less => .lt
  | equal => .eq
  | greater => .gt

@[simp] theorem inverse_inverse (r : Relation) : r.inverse.inverse = r := by cases r <;> rfl

@[simp] theorem isStrict_inverse (r : Relation) : r.inverse.isStrict = r.isStrict := by
  cases r <;> rfl

theorem isStrict_iff {r : Relation} : r.isStrict = true ↔ r ≠ equal := by cases r <;> decide

@[simp] theorem ofOrdering_toOrdering (r : Relation) : ofOrdering r.toOrdering = r := by
  cases r <;> rfl

@[simp] theorem toOrdering_ofOrdering (o : Ordering) : (ofOrdering o).toOrdering = o := by
  cases o <;> rfl

@[simp] theorem ofSymbol?_symbol (r : Relation) : ofSymbol? r.symbol = some r := by
  cases r <;> decide

/-- What the exact reading accepts, the lenient one reads alike. -/
theorem ofSymbol_of_ofSymbol? {s : String} {r : Relation} (h : ofSymbol? s = some r) :
    ofSymbol s = r := by
  unfold ofSymbol? at h
  unfold ofSymbol
  split at h
  · simp_all
  · split at h
    · simp_all
    · split at h <;> simp_all

end Relation

end RuleOrder
