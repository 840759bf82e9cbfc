import RuleOrder.Proofs.Store.Change
import RuleOrder.Table.Render

/-!
What a store answers at once.

Every query of the store of a table gives what the same query of the table gives, and no reading
on the way goes astray. Rows are the same but for their names, which are numbers in the store,
and an id without a number has no row in the table either.
-/

namespace RuleOrder

/-! ### Readings that do not go astray -/

section Readings

variable {α β γ : Type} {f : α → β} {l : List α}

lemma mapM_map_eq_pure {g : β → Reading γ} {k : α → γ} (h : ∀ x ∈ l, g (f x) = pure (k x)) :
    (l.map f).mapM g = pure (l.map k) := by
  induction l with
  | nil => rfl
  | cons x l ih =>
    rw [List.map_cons, List.mapM_cons, h x List.mem_cons_self,
      ih fun y hy => h y (List.mem_cons_of_mem x hy)]
    rfl

lemma findSomeM?_map_eq_pure {g : β → Reading (Option γ)} {k : α → Option γ}
    (h : ∀ x ∈ l, g (f x) = pure (k x)) : (l.map f).findSomeM? g = pure (l.findSome? k) := by
  induction l with
  | nil => rfl
  | cons x l ih =>
    rw [List.map_cons, List.findSomeM?_cons, h x List.mem_cons_self, pure_bind,
      List.findSome?_cons, ih fun y hy => h y (List.mem_cons_of_mem x hy)]
    cases k x <;> rfl

lemma zipIdx_map_eq_map [DecidableEq α] (h : l.Nodup) (g : α → β) :
    (l.map g).zipIdx = l.map fun a => (g a, l.idxOf a) := by
  refine List.ext_getElem (by simp) fun i _ hi => ?_
  simp only [List.length_map] at hi
  simp [h.idxOf_getElem i hi]

end Readings

namespace Table

variable {t : Table} {a b : String}

lemma number?_of_mem (ha : a ∈ t.ids) : t.store.number? a = some (t.number a) := if_pos ha

lemma number?_of_not_mem (ha : a ∉ t.ids) : t.store.number? a = none := if_neg ha

lemma store_weight (t : Table) (a : String) : t.store.weight a = t.weight a := by
  unfold Store.weight
  by_cases ha : a ∈ t.ids
  · rw [number?_of_mem ha, Option.bind_some, weights_store ha]
  · rw [number?_of_not_mem ha, weight, row_eq_of_not_mem ha]
    rfl

lemma named_numbered {es : List (String × Relation)} (hes : ∀ e ∈ es, e.1 ∈ t.ids) :
    t.store.named (t.numbered es) = pure es := by
  have h : t.store.named (t.numbered es) = pure (es.map fun e => e) :=
    mapM_map_eq_pure fun e he => by rw [id_store (hes e he), pure_bind]
  rwa [List.map_id'] at h

lemma lookup_numbered {es : List (String × Relation)} (hes : ∀ e ∈ es, e.1 ∈ t.ids)
    (b : String) : (t.numbered es).lookup (t.number b) = es.lookup b := by
  induction es with
  | nil => rfl
  | cons e es ih =>
    have hrest := ih fun e' he' => hes e' (List.mem_cons_of_mem e he')
    have hinj : t.number b = t.number e.1 ↔ b = e.1 := by
      rw [eq_comm, number_inj (hes e List.mem_cons_self), eq_comm]
    unfold numbered at hrest ⊢
    rw [List.map_cons, Register.lookup_cons_eq_if, Register.lookup_cons_eq_if, hrest]
    exact if_congr hinj rfl rfl

variable (h : t.WellKept)
include h

lemma WellKept.edge_store (ha : a ∈ t.ids) :
    t.store.edge (some (t.number a)) (some (t.number b)) = pure (t.relation a b) := by
  have hlookup : (t.numbered (t.relationsOf a)).lookup (t.number b) = t.relation a b :=
    lookup_numbered (h.mem_ids_of_mem_relationsOf a) b
  dsimp only [Store.edge]
  rw [row_store ha, pure_bind, hlookup]

lemma WellKept.store_relation (a b : String) :
    t.store.relation a b = pure (t.relation a b) := by
  unfold Store.relation
  by_cases ha : a ∈ t.ids
  · by_cases hb : b ∈ t.ids
    · rw [number?_of_mem ha, number?_of_mem hb, h.edge_store ha]
    · have hnone : t.relation a b = none :=
        Option.eq_none_iff_forall_ne_some.mpr fun r hr => hb (h.known a b r hr)
      rw [number?_of_mem ha, number?_of_not_mem hb, hnone]
      rfl
  · rw [number?_of_not_mem ha, relation, row_eq_of_not_mem ha]
    rfl

lemma WellKept.store_relationsOf (a : String) :
    t.store.relationsOf a = pure (t.relationsOf a) := by
  unfold Store.relationsOf
  by_cases ha : a ∈ t.ids
  · rw [number?_of_mem ha]
    dsimp only
    rw [row_store ha, pure_bind, named_numbered (h.mem_ids_of_mem_relationsOf a)]
  · rw [number?_of_not_mem ha, relationsOf, row_eq_of_not_mem ha]
    rfl

lemma WellKept.store_namedEqualities : t.store.namedEqualities = pure t.equalities := by
  have hread : t.store.namedEqualities = pure (t.equalities.map fun p => p) :=
    mapM_map_eq_pure fun p hp => by
      rw [id_store (h.fst_mem_ids hp), id_store (h.snd_mem_ids hp)]
      rfl
  rwa [List.map_id'] at hread

lemma WellKept.store_shownRows :
    t.store.shownRows = pure (t.shownRows.map fun e => (e.1, e.2.weight, e.2.edges.entries)) := by
  have hrows : t.store.rows.zipIdx =
      t.ids.map fun a => (t.numbered (t.relationsOf a), t.number a) :=
    zipIdx_map_eq_map t.nodup_ids _
  have hempty : ∀ a, (t.numbered (t.relationsOf a)).isEmpty = (t.relationsOf a).isEmpty :=
    fun a => by rw [numbered, List.isEmpty_map]
  unfold Store.shownRows
  rw [hrows, List.filter_map, shownRows_eq_map, List.map_map, shownIds]
  simp only [Function.comp_def, hempty]
  refine mapM_map_eq_pure fun a ha => ?_
  have hmem : a ∈ t.ids := List.mem_of_mem_filter ha
  rw [id_store hmem, weights_store hmem, named_numbered (h.mem_ids_of_mem_relationsOf a)]
  rfl

/-! ### Comparing -/

lemma WellKept.store_resolve (a b : String) :
    t.store.resolve (t.store.number? a) (t.store.number? b) = pure (t.resolve a b) := by
  have hweight : ∀ a, (t.store.number? a).bind t.store.weights = t.weight a := t.store_weight
  have hedge : t.store.edge (t.store.number? a) (t.store.number? b) = pure (t.relation a b) :=
    h.store_relation a b
  unfold Store.resolve resolve
  rw [hweight, hweight, hedge]
  cases t.weight a with
  | none => rfl
  | some v =>
    cases t.weight b with
    | none =>
      dsimp only
      split_ifs <;> rfl
    | some w => rfl

end Table

end RuleOrder
