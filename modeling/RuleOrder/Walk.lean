/-!
# Walks by layers

A walk from some nodes along a successor function, one layer at a time: each layer holds the
successors of the one before that were in no earlier layer, in the order in which they are met.
A node is thus met at its least distance, and the walk ends with the first layer that is empty,
or after as many layers as it was allowed.
-/

namespace RuleOrder

namespace Walk

variable {α : Type} [DecidableEq α]

/-- The items that are not among `seen`, each once, in the order in which they first come. -/
def fresh (seen : List α) : List α → List α
  | [] => []
  | x :: rest => if x ∈ seen then fresh seen rest else x :: fresh (x :: seen) rest

/-- At most `n` further layers after `layer`, none of them empty, that keep out of `seen`. -/
def layers (next : α → List α) : Nat → List α → List α → List (List α)
  | 0, _, _ => []
  | n + 1, seen, layer =>
    match fresh seen (layer.flatMap next) with
    | [] => []
    | x :: xs => (x :: xs) :: layers next n (x :: xs ++ seen) (x :: xs)

/-- The nodes within `n` steps of `a`, nearest first, beginning with `a` itself. -/
def within (next : α → List α) (n : Nat) (a : α) : List α :=
  a :: (layers next n [a] [a]).flatten

/-! ### What is fresh -/

theorem mem_fresh {seen xs : List α} {x : α} : x ∈ fresh seen xs ↔ x ∈ xs ∧ x ∉ seen := by
  induction xs generalizing seen with
  | nil => simp [fresh]
  | cons y rest ih =>
    by_cases h : y ∈ seen
    · simp only [fresh, h, if_true, ih, List.mem_cons]
      grind
    · simp only [fresh, h, if_false, ih, List.mem_cons]
      grind

theorem nodup_fresh (seen xs : List α) : (fresh seen xs).Nodup := by
  induction xs generalizing seen with
  | nil => simp [fresh]
  | cons y rest ih =>
    by_cases h : y ∈ seen
    · simpa [fresh, h] using ih seen
    · simp [fresh, h, ih, mem_fresh]

theorem length_layers_le (next : α → List α) (n : Nat) (seen layer : List α) :
    (layers next n seen layer).length ≤ n := by
  induction n generalizing seen layer with
  | zero => simp [layers]
  | succ n ih =>
    unfold layers
    split
    · simp
    · simpa using ih _ _

end Walk

end RuleOrder
