import Mathlib.Order.Lattice
import RuleOrder.Graph.Call
import RuleOrder.Proofs.Places
import RuleOrder.Proofs.Ranking
import RuleOrder.Proofs.Search

/-!
How weights put nodes in order.

Two weights settle a comparison, whatever else is known of their ids. So where every node has
one, the nodes come out by weight, in either direction, and those of one weight in the order in
which they came.

The marker weight works by itself. An id that has it comes before every id that has not, and
unless something is written to come before a marked id no walk finds that anything does. So the
marked nodes come out first and in the order in which they came, whatever becomes of the others.
-/

namespace RuleOrder

namespace Table

variable {t : Table} {limit : UInt64} {a b n : String} {avoiding : List String}

/-! ### Two weights -/

section Weights

variable {v w : Int64}

lemma ofOrdering_compare_eq_less_iff : Relation.ofOrdering (Ord.compare v w) = .less ↔ v < w := by
  rw [← Std.compare_eq_lt]
  cases Ord.compare v w <;> decide

lemma ofOrdering_compare_eq_greater_iff :
    Relation.ofOrdering (Ord.compare v w) = .greater ↔ w < v := by
  rw [← Std.compare_eq_gt]
  cases Ord.compare v w <;> decide

variable (ha : t.weight a = some v) (hb : t.weight b = some w)
include ha hb

lemma compareAvoiding_eq_less_iff_of_weights :
    t.compareAvoiding limit a b avoiding = .less ↔ v < w := by
  rw [(Known.weights ha hb).compareAvoiding, ofOrdering_compare_eq_less_iff]

lemma compareAvoiding_eq_greater_iff_of_weights :
    t.compareAvoiding limit a b avoiding = .greater ↔ w < v := by
  rw [(Known.weights ha hb).compareAvoiding, ofOrdering_compare_eq_greater_iff]

end Weights

/-! ### The marker weight -/

/-- Nothing is written to come before an id that has the marker weight. -/
def Unpreceded (t : Table) : Prop :=
  ∀ a b, t.weight b = some alwaysFirst → t.relation a b ≠ some .less

lemma alwaysFirst_le (v : Int64) : alwaysFirst ≤ v := Int64.minValue_le v

lemma compareAvoiding_of_marked (ha : t.weight a = some alwaysFirst)
    (hb : t.weight b ≠ some alwaysFirst) : t.compareAvoiding limit a b avoiding = .less := by
  cases hw : t.weight b with
  | none => exact (Known.marker ha hw).compareAvoiding
  | some w =>
    rw [compareAvoiding_eq_less_iff_of_weights ha hw]
    refine Int64.lt_of_le_of_ne (alwaysFirst_le w) fun heq => hb ?_
    rw [hw, heq]

lemma Unpreceded.ne_less_of_known (h : t.Unpreceded) (hb : t.weight b = some alwaysFirst)
    {r : Relation} (hr : t.Known n b r) : r ≠ .less := by
  cases hr with
  | weights hn hb' =>
    obtain rfl : alwaysFirst = _ := Option.some.inj (hb.symm.trans hb')
    rw [Ne, ofOrdering_compare_eq_less_iff]
    exact Int64.not_lt.mpr (alwaysFirst_le _)
  | marker _ hb' =>
    rw [hb] at hb'
    cases hb'
  | edge _ _ hr =>
    rintro rfl
    exact h n b hb hr

lemma Unpreceded.compareAvoiding_ne_less (h : t.Unpreceded)
    (hb : t.weight b = some alwaysFirst) : t.compareAvoiding limit a b avoiding ≠ .less := by
  intro hless
  cases compares_of_compareAvoiding (by decide) hless with
  | direct hr => exact h.ne_less_of_known hb hr rfl
  | via _ _ _ _ _ hr => exact h.ne_less_of_known hb hr rfl

end Table

namespace Graph

variable {ν : Type} [Identified ν] {g : Graph ν} {reversed : Bool}

/-! ### Nodes that the comparison ranks -/

/-- **Where the comparison ranks the nodes, they come out by rank**, and those of one rank in the
order in which they came; and there is one such order of their places. -/
theorem eq_orderedPlaces_iff_of_ranks {β : Type} [LinearOrder β] {rank : ν → β}
    (h : MergeSort.Ranks (g.goesBefore reversed) rank g.nodes)
    (ps : List (Fin g.nodes.length)) :
    ps = g.orderedPlaces reversed ↔ ps.Perm (List.finRange g.nodes.length) ∧
      ps.Pairwise fun i j => rank (g.nodes.get i) < rank (g.nodes.get j) ∨
        rank (g.nodes.get i) = rank (g.nodes.get j) ∧ i < j := by
  have hplaces : MergeSort.Ranks
      (fun i j => g.goesBefore reversed (g.nodes.get i) (g.nodes.get j))
      (fun i => rank (g.nodes.get i)) (List.finRange g.nodes.length) := fun i _ j _ =>
    h _ (List.get_mem g.nodes i) _ (List.get_mem g.nodes j)
  have hperm : (g.orderedPlaces reversed).Perm (List.finRange g.nodes.length) :=
    mergeSort_perm ..
  have hsorted := pairwise_mergeSort hplaces (List.pairwise_lt_finRange g.nodes.length)
  constructor
  · rintro rfl
    exact ⟨hperm, hsorted⟩
  · rintro ⟨hps, hpairwise⟩
    refine List.Perm.eq_of_pairwise (fun i j _ _ hij hji => ?_) hpairwise hsorted
      (hps.trans hperm.symm)
    -- of two places no more than one comes before the other
    rcases hij with hij | ⟨heq, hij⟩ <;> rcases hji with hji | ⟨heq', hji⟩
    · exact absurd hji hij.not_gt
    · exact absurd hij heq'.not_gt
    · exact absurd hji heq.not_gt
    · exact absurd hji hij.not_gt

/-- The weight of a node is that of its id. -/
def weightOf (g : Graph ν) (x : ν) : Option Int64 := g.table.weight (Identified.id x)

section Weights

variable {weigh : ν → Int64} (h : ∀ x ∈ g.nodes, g.weightOf x = some (weigh x))
include h

lemma ranks_of_weights :
    MergeSort.Ranks (g.goesBefore false) (fun x => (weigh x).toInt) g.nodes := by
  intro x hx y hy
  rw [← Int64.lt_iff_toInt_lt, goesBefore_iff]
  exact Table.compareAvoiding_eq_less_iff_of_weights (h x hx) (h y hy)

lemma ranks_of_weights_reversed :
    MergeSort.Ranks (g.goesBefore true) (fun x => -(weigh x).toInt) g.nodes := by
  intro x hx y hy
  rw [Int.neg_lt_neg_iff, ← Int64.lt_iff_toInt_lt, goesBefore_iff]
  exact Table.compareAvoiding_eq_greater_iff_of_weights (h x hx) (h y hy)

/-- **Weights decide the order**: where every node has a weight, the nodes come out by weight,
the lightest first or, the other way round, the heaviest, and those of one weight come in either
direction in the order in which they stood. This tells the order of their places in full. -/
theorem eq_orderedPlaces_iff_of_weights :
    (∀ reversed, g.ordered reversed = (g.orderedPlaces reversed).map g.nodes.get) ∧
    (∀ ps : List (Fin g.nodes.length), ps = g.orderedPlaces false ↔
      ps.Perm (List.finRange g.nodes.length) ∧
      ps.Pairwise fun i j => weigh (g.nodes.get i) < weigh (g.nodes.get j) ∨
        weigh (g.nodes.get i) = weigh (g.nodes.get j) ∧ i < j) ∧
    ∀ ps : List (Fin g.nodes.length), ps = g.orderedPlaces true ↔
      ps.Perm (List.finRange g.nodes.length) ∧
      ps.Pairwise fun i j => weigh (g.nodes.get j) < weigh (g.nodes.get i) ∨
        weigh (g.nodes.get i) = weigh (g.nodes.get j) ∧ i < j := by
  refine ⟨g.ordered_eq_map_orderedPlaces, fun ps => ?_, fun ps => ?_⟩
  · rw [eq_orderedPlaces_iff_of_ranks (ranks_of_weights h)]
    simp only [Int64.lt_iff_toInt_lt, Int64.toInt_inj]
  · rw [eq_orderedPlaces_iff_of_ranks (ranks_of_weights_reversed h)]
    simp only [Int64.lt_iff_toInt_lt, Int.neg_lt_neg_iff, Int.neg_inj, Int64.toInt_inj]

end Weights

/-- Weights from one end of their range to the other, one of them handed on by an equality, and
facts that run in a circle. -/
def weighed : Graph String :=
  (ofNodes ["d", "c", "b", "a", "c"]).run [.record ⟨"d", .less, "a"⟩, .record ⟨"a", .less, "b"⟩,
    .record ⟨"b", .less, "d"⟩, .setWeight "a" 5, .record ⟨"c", .equal, "a"⟩,
    .setWeight "b" Int64.minValue, .setWeight "d" Int64.maxValue]

def weighing (id : String) : Int64 :=
  if id = "b" then Int64.minValue else if id = "d" then Int64.maxValue else 5

theorem ordered_weighed :
    (∀ x ∈ weighed.nodes, weighed.weightOf x = some (weighing x)) ∧
    weighed.ordered false = ["b", "c", "a", "c", "d"] ∧
    weighed.ordered true = ["d", "c", "a", "c", "b"] := by
  have hweights : ∀ x ∈ weighed.nodes, weighed.weightOf x = some (weighing x) := by decide
  obtain ⟨hordered, hup, hdown⟩ := eq_orderedPlaces_iff_of_weights hweights
  have hplaces : [⟨2, by decide⟩, ⟨1, by decide⟩, ⟨3, by decide⟩, ⟨4, by decide⟩,
      ⟨0, by decide⟩] = weighed.orderedPlaces false :=
    (hup _).mpr ⟨by decide, by decide⟩
  have hplaces' : [⟨0, by decide⟩, ⟨1, by decide⟩, ⟨3, by decide⟩, ⟨4, by decide⟩,
      ⟨2, by decide⟩] = weighed.orderedPlaces true :=
    (hdown _).mpr ⟨by decide, by decide⟩
  refine ⟨hweights, ?_, ?_⟩
  · rw [hordered, ← hplaces]
    rfl
  · rw [hordered, ← hplaces']
    rfl

/-! ### Marked nodes -/

/-- Whether the node has the marker weight. -/
def marked (g : Graph ν) (x : ν) : Bool := g.weightOf x = some alwaysFirst

lemma marked_iff {x : ν} : g.marked x = true ↔ g.weightOf x = some alwaysFirst := by
  simp [marked]

section Marked

variable (h : g.table.Unpreceded)
include h

lemma goesBefore_eq_false_of_marked {x y : ν} (hy : g.marked y = true) :
    g.goesBefore false x y = false :=
  goesBefore_eq_false_iff.mpr (h.compareAvoiding_ne_less (marked_iff.mp hy))

lemma grades_of_marked :
    MergeSort.Grades (fun i j => g.goesBefore false (g.nodes.get i) (g.nodes.get j))
      (fun i => !g.marked (g.nodes.get i)) (List.finRange g.nodes.length) := by
  intro i _ j _ hlt
  obtain ⟨hi, hj⟩ := Bool.lt_iff.mp hlt
  rw [Bool.not_eq_false'] at hi
  rw [Bool.not_eq_true', ← Bool.not_eq_true, marked_iff] at hj
  refine ⟨goesBefore_iff.mpr ?_, goesBefore_eq_false_of_marked h hi⟩
  exact Table.compareAvoiding_of_marked (marked_iff.mp hi) hj

/-- **Marked nodes come out first**, and in the order in which they stood: where nothing is
written to come before a marked id, the order of the nodes is that of the marked ones followed
by what becomes of the others. -/
theorem ordered_eq_marked_append :
    g.ordered false = g.nodes.filter g.marked ++ (g.ordered false).filter (!g.marked ·) ∧
    g.ordered false = (g.orderedPlaces false).map g.nodes.get ∧
    (g.orderedPlaces false).Perm (List.finRange g.nodes.length) ∧
    g.orderedPlaces false =
      (List.finRange g.nodes.length).filter (fun i => g.marked (g.nodes.get i)) ++
        (g.orderedPlaces false).filter fun i => !g.marked (g.nodes.get i) := by
  have hplaces : g.orderedPlaces false =
      (List.finRange g.nodes.length).filter (fun i => g.marked (g.nodes.get i)) ++
        (g.orderedPlaces false).filter fun i => !g.marked (g.nodes.get i) := by
    refine mergeSort_eq_filter_append (grades_of_marked h) fun i _ j _ _ hj => ?_
    rw [Bool.not_eq_false'] at hj
    exact goesBefore_eq_false_of_marked h hj
  have hordered := g.ordered_eq_map_orderedPlaces false
  refine ⟨?_, hordered, mergeSort_perm .., hplaces⟩
  calc g.ordered false
      = ((List.finRange g.nodes.length).filter (g.marked ∘ g.nodes.get)).map g.nodes.get ++
          ((g.orderedPlaces false).filter ((!g.marked ·) ∘ g.nodes.get)).map g.nodes.get := by
        rw [← List.map_append, hordered]
        exact congrArg (List.map g.nodes.get) hplaces
    _ = ((List.finRange g.nodes.length).map g.nodes.get).filter g.marked ++
          ((g.orderedPlaces false).map g.nodes.get).filter (!g.marked ·) := by
        rw [List.filter_map, List.filter_map]
    _ = g.nodes.filter g.marked ++ (g.ordered false).filter (!g.marked ·) := by
        rw [List.map_get_finRange, hordered]

end Marked

/-- Two marked ids, one of them level with an id of a circle, and an id of which nothing is
known. -/
def crowned : Graph String :=
  (withDepth ["c", "x", "m", "b", "n", "a", "m"] 1).run [.record ⟨"a", .less, "b"⟩,
    .record ⟨"b", .less, "c"⟩, .record ⟨"c", .less, "a"⟩, .record ⟨"m", .equal, "a"⟩,
    .record ⟨"b", .greater, "n"⟩, .setWeight "m" alwaysFirst, .setWeight "n" alwaysFirst,
    .setWeight "b" (-7)]

theorem ordered_crowned :
    crowned.table.Unpreceded ∧ ["m", "n", "m"] <+: crowned.ordered false := by
  have hlist : ∀ a ∈ crowned.table.ids, ∀ e ∈ crowned.table.relationsOf a, e.2 = .less →
      crowned.table.weight e.1 ≠ some alwaysFirst := by decide
  have h : crowned.table.Unpreceded := fun a b hb hr =>
    hlist a (Table.mem_ids_of_relation hr) (b, .less) (Table.relation_eq_some_iff.mp hr) rfl hb
  exact ⟨h, _, (ordered_eq_marked_append h).1.symm⟩

end Graph

end RuleOrder
