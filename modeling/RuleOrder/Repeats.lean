/-!
# Repeats

Which items of a list have come before in it.
-/

namespace RuleOrder

variable {α : Type} [DecidableEq α]

namespace Repeats

/-- For each item, whether it is neither among `seen` nor earlier in the list. -/
def newAmong (seen : List α) : List α → List Bool
  | [] => []
  | x :: rest => decide (x ∉ seen) :: newAmong (x :: seen) rest

/-- The first item that is among `seen` or earlier in the list. -/
def firstAmong? (seen : List α) : List α → Option α
  | [] => none
  | x :: rest => if x ∈ seen then some x else firstAmong? (x :: seen) rest

end Repeats

/-- For each item of the list, whether it comes for the first time. -/
def firstSightings (xs : List α) : List Bool := Repeats.newAmong [] xs

/-- The first item of the list that has come before in it. -/
def firstRepeat? (xs : List α) : Option α := Repeats.firstAmong? [] xs

namespace Repeats

theorem firstAmong?_eq_none_iff {seen xs : List α} :
    firstAmong? seen xs = none ↔ xs.Nodup ∧ ∀ x ∈ xs, x ∉ seen := by
  induction xs generalizing seen with
  | nil => simp [firstAmong?]
  | cons x rest ih =>
    by_cases h : x ∈ seen
    · simp [firstAmong?, h]
    · simp only [firstAmong?, h, if_false, ih, List.nodup_cons, List.mem_cons]
      grind

end Repeats

theorem firstRepeat?_eq_none_iff {xs : List α} : firstRepeat? xs = none ↔ xs.Nodup := by
  simp [firstRepeat?, Repeats.firstAmong?_eq_none_iff]

end RuleOrder
