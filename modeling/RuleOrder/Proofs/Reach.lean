import RuleOrder.Proofs.Layers
import RuleOrder.Table.Strict

/-!
Reaching one id from another along `less`.

The places of the edges of an id number them in the order in which they came, and the test
for a cycle finds out exactly whether one id leads to another.
-/

namespace RuleOrder.Table

/-- The place of `v` among the edges of `u`. -/
def place (t : Table) (u v : String) : ℕ := ((t.relationsOf u).map Prod.fst).idxOf v

/-- A path of one step or more along `less`. -/
def Leads (t : Table) : String → String → Prop :=
  Relation.TransGen fun u v => t.relation u v = some .less

lemma Leads.mono {t u : Table} {a b : String} (h : t.Leads a b)
    (htu : ∀ x y, t.relation x y = some .less → u.relation x y = some .less) : u.Leads a b :=
  Relation.TransGen.mono htu a b h

lemma pairwise_idxOf {l : List String} (h : l.Nodup) :
    l.Pairwise fun v w => l.idxOf v < l.idxOf w := by
  rw [List.pairwise_iff_getElem]
  intro i j hi hj hij
  rwa [h.idxOf_getElem i hi, h.idxOf_getElem j hj]

lemma pairwise_successors (t : Table) (u : String) :
    (t.successors u).Pairwise fun v w => t.place u v < t.place u w := by
  have hsub : (t.successors u).Sublist ((t.relationsOf u).map Prod.fst) :=
    List.filter_sublist.map Prod.fst
  exact (pairwise_idxOf (t.row u).edges.nodup_keys).sublist hsub

lemma mem_ids_of_mem_successors {t : Table} {u v : String} (h : v ∈ t.successors u) :
    u ∈ t.ids :=
  mem_ids_of_relation (mem_successors.mp h)

/-- **The test for a cycle is exact**: it finds out whether one id leads to another. -/
theorem precedes_iff {t : Table} {a b : String} : t.precedes a b = true ↔ t.Leads a b := by
  have hstep : (fun u v => v ∈ t.successors u) = fun u v => t.relation u v = some .less := by
    funext u v
    exact propext mem_successors
  rw [precedes, decide_eq_true_iff, List.mem_flatMap]
  constructor
  · rintro ⟨u, hu, hb⟩
    rw [Walk.mem_within_iff t.pairwise_successors (fun _ _ => mem_ids_of_mem_successors),
      hstep] at hu
    exact .tail' hu (mem_successors.mp hb)
  · intro h
    obtain ⟨u, hu, hb⟩ := Relation.TransGen.tail'_iff.mp h
    refine ⟨u, ?_, mem_successors.mpr hb⟩
    rwa [Walk.mem_within_iff t.pairwise_successors (fun _ _ => mem_ids_of_mem_successors), hstep]

end RuleOrder.Table
