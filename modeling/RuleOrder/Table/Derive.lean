import RuleOrder.Table.Basic

/-!
# Following equalities

An equality by itself gives its subject nothing but a weight. Deriving goes once through the
equalities that were said, in their order, and lets each subject inherit the strict relations
that its object has at that moment; what one pair inherits, a later one can pass on. Equalities
said or strict facts recorded afterwards need another pass.
-/

namespace RuleOrder

namespace Table

/-- The facts that `a` takes over from `b`: the strict relations of `b`, in their order. -/
def inherited (t : Table) (a b : String) : List Fact :=
  ((t.relationsOf b).filter fun e => e.2.isStrict).map fun e => ⟨a, e.2, e.1⟩

/-- The facts that going through some equalities yields. -/
def derivation (t : Table) : List (String × String) → List Fact
  | [] => []
  | (a, b) :: rest =>
    let fs := t.inherited a b
    fs ++ (t.writeAll (fs.flatMap Fact.sides)).derivation rest

/-- The facts that the equalities of the table yield. -/
def derived (t : Table) : List Fact := t.derivation t.equalities

/-- Take in what the equalities yield. -/
def derive (t : Table) : Table := t.writeAll (t.derived.flatMap Fact.sides)

theorem mem_inherited {t : Table} {a b : String} {f : Fact} :
    f ∈ t.inherited a b ↔
      f.subject = a ∧ f.relation.isStrict = true ∧ t.relation b f.object = some f.relation := by
  obtain ⟨s, r, o⟩ := f
  simp only [inherited, List.mem_map, List.mem_filter, relation_eq_some_iff, Fact.mk.injEq,
    Prod.exists]
  grind

theorem isStrict_of_mem_derivation {t : Table} {ps : List (String × String)} {f : Fact}
    (h : f ∈ t.derivation ps) : f.relation.isStrict = true := by
  induction ps generalizing t with
  | nil => simp [derivation] at h
  | cons p rest ih =>
    rw [derivation, List.mem_append] at h
    exact h.elim (fun h => (mem_inherited.1 h).2.1) ih

end Table

end RuleOrder
