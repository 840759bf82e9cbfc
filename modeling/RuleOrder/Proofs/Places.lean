import Mathlib.Data.List.FinRange
import RuleOrder.Graph.Basic
import RuleOrder.Proofs.Merge

/-!
Where the nodes of a graph come to stand.

Several nodes may have one id, and so a node is followed by the place it has in the list. The
order of the nodes is an order of their places, and of two neighbours in it one comparison
decides which goes first: the later one has to go before the earlier one, or it stays behind.
No law of order is asked of the comparison.
-/

namespace RuleOrder

namespace Graph

variable {ν : Type} [Identified ν]

/-- The places of the nodes, in the order in which the nodes come out. -/
def orderedPlaces (g : Graph ν) (reversed : Bool) : List (Fin g.nodes.length) :=
  mergeSort (fun i j => g.goesBefore reversed (g.nodes.get i) (g.nodes.get j))
    (List.finRange g.nodes.length)

lemma ordered_eq_map_orderedPlaces (g : Graph ν) (reversed : Bool) :
    g.ordered reversed = (g.orderedPlaces reversed).map g.nodes.get := by
  have h : g.ordered reversed =
      mergeSort (g.goesBefore reversed) ((List.finRange g.nodes.length).map g.nodes.get) := by
    rw [List.map_get_finRange, ordered]
  rw [h, mergeSort_map, orderedPlaces]

lemma isChain_orderedPlaces (g : Graph ν) (reversed : Bool) :
    (g.orderedPlaces reversed).IsChain fun i j =>
      (j < i → g.compareNodes (g.nodes.get i) (g.nodes.get j) = ahead reversed) ∧
      (i < j → g.compareNodes (g.nodes.get j) (g.nodes.get i) ≠ ahead reversed) := by
  refine isChain_mergeSort ((List.pairwise_lt_finRange _).imp fun {i j} hij => ⟨?_, ?_⟩)
  · intro hb
    exact ⟨fun _ => goesBefore_iff.mp hb, fun hji => absurd hij hji.asymm⟩
  · intro hb
    exact ⟨fun hji => absurd hij hji.asymm, fun _ => goesBefore_eq_false_iff.mp hb⟩

/-- **Neighbours are put the wrong way round only on demand**: the nodes come out in some order
of their places, in which of any two neighbours the one with the later place goes first just
when it compares as coming before the other, or after it where the order is reversed; and nodes
that never do so come out as they are. -/
theorem neighbours_of_ordered (g : Graph ν) (reversed : Bool) :
    let first : Relation := if reversed then .greater else .less
    g.ordered reversed = (g.orderedPlaces reversed).map g.nodes.get ∧
    (g.orderedPlaces reversed).Perm (List.finRange g.nodes.length) ∧
    ((g.orderedPlaces reversed).IsChain fun i j =>
      (j < i → g.compareNodes (g.nodes.get i) (g.nodes.get j) = first) ∧
      (i < j → g.compareNodes (g.nodes.get j) (g.nodes.get i) ≠ first)) ∧
    ((g.nodes.Pairwise fun x y => g.compareNodes y x ≠ first) →
      g.ordered reversed = g.nodes) := by
  intro first
  refine ⟨g.ordered_eq_map_orderedPlaces reversed, mergeSort_perm ..,
    g.isChain_orderedPlaces reversed, fun h => mergeSort_eq_self ?_⟩
  exact h.imp fun hxy => goesBefore_eq_false_iff.mpr hxy

end Graph

end RuleOrder
