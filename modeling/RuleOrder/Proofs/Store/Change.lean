import RuleOrder.Proofs.Reached
import RuleOrder.Proofs.Store.Basic

/-!
What changes do to a store.

A table has one store, in which each id has its place in the list of ids for its number. Every
change of the table is the same change of its store, and no reading on the way goes astray. What
this takes is that the table speaks of no id that it does not know: then the number of each peer
is below the number of ids, and two peers have two numbers.
-/

namespace RuleOrder

/-! ### One place of a list -/

section Places

variable {α β : Type} [DecidableEq α] {l : List α} {a : α}

lemma map_set_idxOf (h : l.Nodup) (ha : a ∈ l) (f : α → β) (v : β) :
    (l.map f).set (l.idxOf a) v = l.map (Function.update f a v) := by
  induction l with
  | nil => cases ha
  | cons b l ih =>
    obtain ⟨hb, hl⟩ := List.nodup_cons.mp h
    have hother : ∀ c ∈ l, c ≠ b := fun c hc hcb => hb (hcb ▸ hc)
    by_cases hab : b = a
    · subst hab
      have hrest : l.map (Function.update f b v) = l.map f :=
        List.map_congr_left fun c hc => Function.update_of_ne (hother c hc) v f
      simp [hrest]
    · have ha' : a ∈ l := (List.mem_cons.mp ha).resolve_left fun h => hab h.symm
      rw [List.idxOf_cons_ne l hab, List.map_cons, List.set_cons_succ, ih hl ha', List.map_cons,
        Function.update_of_ne hab]

lemma update_getElem?_idxOf (h : l.Nodup) (ha : a ∈ l) (f : α → Option β) (v : Option β) :
    Function.update (fun n => l[n]?.bind f) (l.idxOf a) v =
      fun n => l[n]?.bind (Function.update f a v) := by
  funext n
  by_cases hn : n = l.idxOf a
  · rw [hn, Function.update_self, List.getElem?_idxOf ha, Option.bind_some, Function.update_self]
  · rw [Function.update_of_ne hn]
    cases hb : l[n]? with
    | none => rfl
    | some b =>
      have hba : b ≠ a := by
        rintro rfl
        obtain ⟨hlt, hget⟩ := List.getElem?_eq_some_iff.mp hb
        rw [← hget, h.idxOf_getElem n hlt] at hn
        exact hn rfl
      rw [Option.bind_some, Option.bind_some, Function.update_of_ne hba]

end Places

namespace Table

variable {t : Table} {f : Fact} {a b : String}

/-! ### The store of a table -/

def number (t : Table) (a : String) : ℕ := t.ids.idxOf a

/-- Some entries with the numbers of their peers. -/
def numbered (t : Table) (es : List (String × Relation)) : List (ℕ × Relation) :=
  es.map fun e => (t.number e.1, e.2)

/-- The store that keeps by number what the table keeps. -/
def store (t : Table) : Store where
  ids := t.ids
  rows := t.ids.map fun a => t.numbered (t.relationsOf a)
  weights := fun n => t.ids[n]?.bind t.weight
  equalities := t.equalities.map fun p => (t.number p.1, t.number p.2)

lemma number_inj (ha : a ∈ t.ids) : t.number a = t.number b ↔ a = b := List.idxOf_inj ha

lemma number_lt (ha : a ∈ t.ids) : t.number a < t.ids.length := List.idxOf_lt_length_iff.mpr ha

lemma getElem?_number (ha : a ∈ t.ids) : t.ids[t.number a]? = some a := List.getElem?_idxOf ha

lemma row_store (ha : a ∈ t.ids) :
    t.store.row (t.number a) = pure (t.numbered (t.relationsOf a)) := by
  refine Store.row_eq_ok_iff.mpr ?_
  rw [store, List.getElem?_map, getElem?_number ha, Option.map_some]

lemma id_store (ha : a ∈ t.ids) : t.store.id (t.number a) = pure a :=
  Store.id_eq_ok_iff.mpr (getElem?_number ha)

lemma weights_store (ha : a ∈ t.ids) : t.store.weights (t.number a) = t.weight a := by
  have hweight : t.store.weights (t.number a) = t.ids[t.number a]?.bind t.weight := rfl
  rw [hweight, getElem?_number ha, Option.bind_some]

/-! ### Writing -/

lemma number_eq_of_ids {u : Table} (h : u.ids = t.ids) : u.number = t.number := by
  funext a
  rw [number, h, number]

lemma overwrite_numbered {es : List (String × Relation)} (hes : ∀ e ∈ es, e.1 ∈ t.ids)
    (b : String) (r : Relation) :
    Register.overwrite (t.number b) r (t.numbered es) =
      t.numbered (Register.overwrite b r es) := by
  induction es with
  | nil => rfl
  | cons e es ih =>
    have hrest := ih fun e' he' => hes e' (List.mem_cons_of_mem e he')
    have hinj : t.number e.1 = t.number b ↔ e.1 = b := number_inj (hes e List.mem_cons_self)
    unfold numbered at hrest ⊢
    rw [List.map_cons, Register.overwrite, Register.overwrite]
    by_cases he : e.1 = b
    · rw [if_pos (hinj.mpr he), if_pos he, List.map_cons]
    · rw [if_neg fun h => he (hinj.mp h), if_neg he, List.map_cons, hrest]

lemma WellKept.mem_ids_of_mem_relationsOf (h : t.WellKept) (a : String) :
    ∀ e ∈ t.relationsOf a, e.1 ∈ t.ids :=
  fun e he => h.known a e.1 e.2 (relation_eq_some_iff.mpr he)

variable (h : t.WellKept)
include h

lemma WellKept.rows_store_write (hs : f.subject ∈ t.ids) :
    (t.write f).store.rows = t.store.rows.set (t.number f.subject)
      (Register.overwrite (t.number f.object) f.relation
        (t.numbered (t.relationsOf f.subject))) := by
  have hids : (t.write f).ids = t.ids := ids_write_of_mem hs
  have hrow : (fun a => (t.write f).numbered ((t.write f).relationsOf a)) =
      Function.update (fun a => t.numbered (t.relationsOf a)) f.subject
        (t.numbered (Register.overwrite f.object f.relation (t.relationsOf f.subject))) := by
    funext a
    rw [numbered, number_eq_of_ids hids, relationsOf_write, Function.update_apply]
    split_ifs <;> rfl
  rw [overwrite_numbered (h.mem_ids_of_mem_relationsOf f.subject)]
  unfold store
  rw [hids, hrow]
  exact (map_set_idxOf t.nodup_ids hs _ _).symm

omit h in
lemma weights_store_write (hs : f.subject ∈ t.ids) (hr : f.relation = .equal) :
    (t.write f).store.weights = Function.update t.store.weights (t.number f.subject)
      ((t.weight f.subject).or (t.weight f.object)) := by
  have hids : (t.write f).ids = t.ids := ids_write_of_mem hs
  have hweight : (t.write f).weight = Function.update t.weight f.subject
      ((t.weight f.subject).or (t.weight f.object)) := by
    funext a
    rw [weight_write, Function.update_apply]
    by_cases ha : a = f.subject <;> simp [ha, hr]
  unfold store
  rw [hids, hweight]
  exact (update_getElem?_idxOf t.nodup_ids hs _ _).symm

lemma WellKept.store_write (hs : f.subject ∈ t.ids) (ho : f.object ∈ t.ids) :
    t.store.write (t.number f.subject) (t.number f.object) f.relation =
      pure (t.write f).store := by
  have hids : (t.write f).ids = t.ids := ids_write_of_mem hs
  have hequalities : (t.write f).store.equalities =
      (t.write f).equalities.map fun p => (t.number p.1, t.number p.2) := by
    unfold store
    rw [number_eq_of_ids hids]
  unfold Store.write
  rw [row_store hs, id_store hs, id_store ho]
  simp only [pure_bind]
  rw [← h.rows_store_write hs, weights_store hs, weights_store ho]
  by_cases hr : f.relation = .equal
  · rw [if_pos hr, ← weights_store_write hs hr]
    refine congrArg pure (Store.ext hids.symm rfl rfl ?_)
    rw [hequalities, equalities_write, if_pos hr, List.map_append]
    rfl
  · have hstrict : f.relation.isStrict = true := Relation.isStrict_iff.mpr hr
    rw [if_neg hr]
    refine congrArg pure (Store.ext hids.symm rfl ?_ ?_)
    · funext n
      change _ = (t.write f).ids[n]?.bind (t.write f).weight
      rw [hids, funext (weight_write_of_isStrict hstrict)]
      rfl
    · rw [hequalities, equalities_write_of_isStrict hstrict]
      rfl

lemma WellKept.store_link (hs : f.subject ∈ t.ids) (ho : f.object ∈ t.ids) :
    t.store.link (t.number f.subject) (t.number f.object) f.relation =
      pure (t.writeAll f.sides).store := by
  have hids : (t.write f).ids = t.ids := ids_write_of_mem hs
  unfold Store.link Fact.sides
  rw [h.store_write hs ho, pure_bind]
  by_cases hr : f.relation.isStrict = true
  · rw [if_pos hr, if_pos hr, ← number_eq_of_ids hids]
    refine (h.write ho).store_write (f := f.converse) ?_ ?_
    · rw [hids]
      exact ho
    · rw [hids]
      exact hs
  · rw [if_neg hr, if_neg hr]
    rfl

/-! ### Naming ids -/

omit h in
lemma intern_of_mem (ha : a ∈ t.ids) : t.intern a = t := by
  have hsome : (t.rows.get? a).isSome = true := Register.isSome_get?_iff.mpr ha
  rw [intern, Register.insertIfNew, if_pos hsome]

omit h in
lemma number_intern (hb : b ∈ t.ids) (a : String) : (t.intern a).number b = t.number b := by
  rw [number, ids_intern]
  split_ifs
  · rfl
  · exact List.idxOf_append_of_mem hb

omit h in
lemma numbered_intern {es : List (String × Relation)} (hes : ∀ e ∈ es, e.1 ∈ t.ids)
    (a : String) : (t.intern a).numbered es = t.numbered es :=
  List.map_congr_left fun e he => by rw [number_intern (hes e he)]

lemma WellKept.rows_store_intern (ha : a ∉ t.ids) :
    (t.intern a).store.rows = t.store.rows ++ [[]] := by
  have hids : (t.intern a).ids = t.ids ++ [a] := by rw [ids_intern, if_neg ha]
  have hrow : ∀ b, (t.intern a).numbered ((t.intern a).relationsOf b) =
      t.numbered (t.relationsOf b) := fun b => by
    rw [relationsOf_intern, numbered_intern (h.mem_ids_of_mem_relationsOf b)]
  have hnew : t.relationsOf a = [] := by
    rw [relationsOf, row_eq_of_not_mem ha]
    rfl
  unfold store
  rw [hids, funext hrow, List.map_append, List.map_singleton, hnew]
  rfl

omit h in
lemma weights_store_intern (ha : a ∉ t.ids) : (t.intern a).store.weights = t.store.weights := by
  have hids : (t.intern a).ids = t.ids ++ [a] := by rw [ids_intern, if_neg ha]
  have hnew : t.weight a = none := by
    rw [weight, row_eq_of_not_mem ha]
  funext n
  change (t.intern a).ids[n]?.bind (t.intern a).weight = t.ids[n]?.bind t.weight
  rw [hids, funext (t.weight_intern a)]
  -- the new number is that of an id without a weight
  rcases Nat.lt_trichotomy n t.ids.length with hn | rfl | hn
  · rw [List.getElem?_append_left hn]
  · simp [hnew]
  · have hlen : (t.ids ++ [a]).length ≤ n := by
      rw [List.length_append]
      exact hn
    rw [List.getElem?_eq_none hlen, List.getElem?_eq_none (Nat.le_of_lt hn)]

lemma WellKept.equalities_store_intern (a : String) :
    (t.intern a).store.equalities = t.store.equalities :=
  List.map_congr_left fun p hp => by
    rw [number_intern (h.fst_mem_ids hp), number_intern (h.snd_mem_ids hp)]

lemma WellKept.store_intern (a : String) :
    t.store.intern a = ((t.intern a).store, (t.intern a).number a) := by
  have hlen : t.store.rows.length = t.ids.length := List.length_map ..
  unfold Store.intern
  by_cases ha : a ∈ t.ids
  · rw [intern_of_mem ha]
    refine Prod.ext (Store.ext (if_pos ha) ?_ rfl rfl) (congrArg (List.idxOf a) (if_pos ha))
    rw [hlen, if_pos (show a ∈ t.store.ids from ha)]
    simp [store]
  · have hids : (t.intern a).ids = t.ids ++ [a] := by rw [ids_intern, if_neg ha]
    have hnamed : (if a ∈ t.store.ids then t.store.ids else t.store.ids ++ [a]) =
        (t.intern a).ids := (if_neg ha).trans hids.symm
    rw [hnamed, hlen]
    refine Prod.ext (Store.ext rfl ?_ (weights_store_intern ha).symm
      (h.equalities_store_intern a).symm) rfl
    rw [h.rows_store_intern ha, hids]
    simp

lemma WellKept.store_record (f : Fact) : t.store.record f = pure (t.record f).store := by
  have hsubject : (t.introduce f).number f.subject = (t.intern f.subject).number f.subject :=
    number_intern (mem_ids_intern.mpr (Or.inl rfl)) f.object
  unfold Store.record
  rw [h.store_intern]
  dsimp only
  rw [(h.intern f.subject).store_intern]
  dsimp only
  rw [← hsubject]
  exact ((h.intern f.subject).intern f.object).store_link (t.subject_mem_ids_introduce f)
    (t.object_mem_ids_introduce f)

lemma WellKept.store_setWeight (a : String) (w : Int64) :
    t.store.setWeight a w = (t.setWeight a w).store := by
  have hids : (t.setWeight a w).ids = (t.intern a).ids := by rw [ids_setWeight, ids_intern]
  have ha : a ∈ (t.intern a).ids := mem_ids_intern.mpr (Or.inl rfl)
  have hweight : (t.setWeight a w).weight = Function.update (t.intern a).weight a (some w) := by
    funext b
    rw [weight_setWeight, Function.update_apply, weight_intern]
  unfold Store.setWeight
  rw [h.store_intern]
  refine Store.ext hids.symm ?_ ?_ ?_
  · unfold store numbered
    simp only [hids, number_eq_of_ids hids, relationsOf_setWeight, relationsOf_intern]
  · unfold store
    rw [hids, hweight]
    exact update_getElem?_idxOf (t.intern a).nodup_ids ha _ _
  · unfold store
    rw [number_eq_of_ids hids]
    rfl

/-! ### Following equalities -/

lemma WellKept.store_links (ha : a ∈ t.ids) {es : List (String × Relation)}
    (hes : ∀ e ∈ es, e.1 ∈ t.ids) :
    (t.numbered es).foldlM (fun s e => s.link (t.number a) e.1 e.2) t.store =
      pure (t.writeAll ((es.map fun e => ⟨a, e.2, e.1⟩).flatMap Fact.sides)).store := by
  induction es generalizing t with
  | nil => rfl
  | cons e es ih =>
    have he : e.1 ∈ t.ids := hes e List.mem_cons_self
    have hids := ids_writeAll_sides (f := ⟨a, e.2, e.1⟩) ha he
    -- no id is named on the way, so the numbers of the rest stay as they are
    have hrest := ih (h.writeAll_sides (f := ⟨a, e.2, e.1⟩) ha he) (hids ▸ ha)
      fun e' he' => hids ▸ hes e' (List.mem_cons_of_mem e he')
    rw [numbered, number_eq_of_ids hids] at hrest
    rw [numbered, List.map_cons, List.foldlM_cons, h.store_link (f := ⟨a, e.2, e.1⟩) ha he,
      pure_bind, List.map_cons, List.flatMap_cons, writeAll_append]
    exact hrest

lemma WellKept.store_inherit (ha : a ∈ t.ids) (hb : b ∈ t.ids) :
    t.store.inherit (t.number a, t.number b) =
      pure (t.writeAll ((t.inherited a b).flatMap Fact.sides)).store := by
  have hstrict : (t.numbered (t.relationsOf b)).filter (fun e => e.2.isStrict) =
      t.numbered ((t.relationsOf b).filter fun e => e.2.isStrict) := List.filter_map
  unfold Store.inherit
  rw [row_store hb, pure_bind, hstrict]
  exact h.store_links ha fun e he =>
    h.mem_ids_of_mem_relationsOf b e (List.mem_of_mem_filter he)

lemma WellKept.store_derivation {ps : List (String × String)} (hps : ps ⊆ t.equalities) :
    (ps.map fun p => (t.number p.1, t.number p.2)).foldlM Store.inherit t.store =
      pure (t.writeAll ((t.derivation ps).flatMap Fact.sides)).store := by
  induction ps generalizing t with
  | nil => rfl
  | cons p ps ih =>
    have hp := hps List.mem_cons_self
    have hsides :=
      h.hereditary_mem_ids.forall_mem_sides (h.hereditary_mem_ids.forall_mem_inherited hp)
    obtain ⟨hkept, hids⟩ := h.writeAll fun f hf => (hsides f hf).2
    have hrest := ih hkept (subset_equalities_writeAll (fun f hf => (hsides f hf).1) hps)
    rw [number_eq_of_ids hids] at hrest
    rw [List.map_cons, List.foldlM_cons, h.store_inherit (h.fst_mem_ids hp) (h.snd_mem_ids hp),
      pure_bind, hrest, derivation, List.flatMap_append, writeAll_append]

lemma WellKept.store_derive : t.store.derive = pure t.derive.store :=
  h.store_derivation (List.Subset.refl _)

end Table

end RuleOrder
