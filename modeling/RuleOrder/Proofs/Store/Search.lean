import RuleOrder.Proofs.Refusal
import RuleOrder.Proofs.Store.Query

/-!
What a store finds by a walk.

A walk along numbers is the walk along ids under other names. What has been seen, what comes
next and what is fresh are told apart by numbers just as they are by ids, since two known ids
have two numbers. So the searches and the tests for cycles of a store read no row and no id in
vain, and come to what those of its table come to.
-/

namespace RuleOrder

/-! ### Walks under other names -/

namespace Walk

variable {α β : Type} [DecidableEq α] [DecidableEq β] {f : α → β} {known : List α}
  (hf : ∀ x ∈ known, ∀ y, f x = f y ↔ x = y)
include hf

omit [DecidableEq α] [DecidableEq β] in
lemma mem_map_iff {x : α} (hx : x ∈ known) {xs : List α} : f x ∈ xs.map f ↔ x ∈ xs := by
  rw [List.mem_map]
  refine ⟨?_, fun h => ⟨x, h, rfl⟩⟩
  rintro ⟨y, hy, hyx⟩
  rwa [(hf x hx y).mp hyx.symm]

lemma fresh_map {seen : List α} {seen' : List β} {xs : List α}
    (hseen : ∀ x ∈ known, f x ∈ seen' ↔ x ∈ seen) (hxs : ∀ x ∈ xs, x ∈ known) :
    fresh seen' (xs.map f) = (fresh seen xs).map f := by
  induction xs generalizing seen seen' with
  | nil => rfl
  | cons x xs ih =>
    have hx := hxs x List.mem_cons_self
    have hrest : ∀ y ∈ xs, y ∈ known := fun y hy => hxs y (List.mem_cons_of_mem x hy)
    rw [List.map_cons, fresh, fresh]
    by_cases h : x ∈ seen
    · rw [if_pos ((hseen x hx).mpr h), if_pos h, ih hseen hrest]
    · have hcons : ∀ y ∈ known, f y ∈ f x :: seen' ↔ y ∈ x :: seen := fun y hy => by
        rw [List.mem_cons, List.mem_cons, hf y hy, hseen y hy]
      rw [if_neg fun h' => h ((hseen x hx).mp h'), if_neg h, ih hcons hrest, List.map_cons]

lemma readLayers_map {next : α → List α} {next' : β → Reading (List β)}
    (hnext : ∀ x ∈ known, next' (f x) = pure ((next x).map f))
    (hknown : ∀ x, ∀ y ∈ next x, y ∈ known) {n : ℕ} {seen : List α} {seen' : List β}
    {layer : List α} (hseen : ∀ x ∈ known, f x ∈ seen' ↔ x ∈ seen)
    (hlayer : ∀ x ∈ layer, x ∈ known) :
    readLayers next' n seen' (layer.map f) =
      pure ((layers next n seen layer).map (List.map f)) := by
  induction n generalizing seen seen' layer with
  | zero => rfl
  | succ n ih =>
    have hall : ∀ y ∈ layer.flatMap next, y ∈ known := fun y hy => by
      obtain ⟨x, -, hxy⟩ := List.mem_flatMap.mp hy
      exact hknown x y hxy
    have hread : (layer.map f).mapM next' = pure (layer.map fun x => (next x).map f) :=
      mapM_map_eq_pure fun x hx => hnext x (hlayer x hx)
    have hflat : (layer.map fun x => (next x).map f).flatten = (layer.flatMap next).map f := by
      rw [List.map_flatMap, List.flatMap_def]
    rw [readLayers, layers, hread, pure_bind, hflat, fresh_map hf hseen hall]
    cases hfresh : fresh seen (layer.flatMap next) with
    | nil => rfl
    | cons x xs =>
      have hmem : ∀ y ∈ x :: xs, y ∈ known := fun y hy => by
        rw [← hfresh] at hy
        exact hall y (mem_fresh.mp hy).1
      -- what this layer holds counts as seen from now on, under either name
      have hnow : ∀ y ∈ known, f y ∈ (x :: xs).map f ++ seen' ↔ y ∈ x :: xs ++ seen := by
        intro y hy
        rw [List.mem_append, List.mem_append, mem_map_iff hf hy, hseen y hy]
      have hrest := ih hnow hmem
      rw [List.map_cons] at hrest ⊢
      dsimp only
      rw [hrest]
      rfl

end Walk

namespace Table

variable {t : Table} {a b : String} (h : t.WellKept)
include h

/-! ### Comparing -/

omit h in
lemma successors_store (ha : a ∈ t.ids) :
    t.store.successors (t.number a) = pure ((t.successors a).map t.number) := by
  unfold Store.successors successors
  rw [row_store ha, pure_bind, numbered, List.filter_map, List.map_map, List.map_map]
  rfl

lemma WellKept.forall_mem_layers (ha : a ∈ t.ids) {n : ℕ} {seen : List String} :
    ∀ layer ∈ Walk.layers t.successors n seen [a], ∀ b ∈ layer, b ∈ t.ids :=
  Walk.forall_mem_layers (fun x _ => h.mem_ids_of_mem_successors x) fun x hx => by
    rw [List.mem_singleton] at hx
    exact hx ▸ ha

lemma WellKept.readLayers_store {n : ℕ} {seen : List String} {seen' : List ℕ}
    (hseen : ∀ c ∈ t.ids, t.number c ∈ seen' ↔ c ∈ seen) (ha : a ∈ t.ids) :
    Walk.readLayers t.store.successors n seen' [t.number a] =
      pure ((Walk.layers t.successors n seen [a]).map (List.map t.number)) :=
  Walk.readLayers_map (fun _ hc _ => number_inj hc) (fun _ hc => successors_store hc)
    h.mem_ids_of_mem_successors hseen fun c hc => by
      rw [List.mem_singleton] at hc
      exact hc ▸ ha

lemma WellKept.store_firstAnswer (hb : b ∈ t.ids) {layers : List (List String)}
    (hlayers : ∀ layer ∈ layers, ∀ n ∈ layer, n ∈ t.ids) :
    t.store.firstAnswer (t.number b) (layers.map (List.map t.number)) =
      pure ((t.firstAnswer b layers).map fun (r, n, depth) => (r, t.number n, depth)) := by
  unfold Store.firstAnswer firstAnswer
  rw [List.zipIdx_map, List.map_findSome?]
  refine findSomeM?_map_eq_pure fun (layer, depth) hlayer => ?_
  have hmem : layer ∈ layers := List.fst_mem_of_mem_zipIdx hlayer
  simp only [Prod.map, Function.comp_apply, List.map_findSome?]
  refine findSomeM?_map_eq_pure fun n hn => ?_
  rw [← number?_of_mem (hlayers layer hmem n hn), ← number?_of_mem hb, h.store_resolve, pure_bind,
    Function.comp_apply, Option.map_map]
  rfl

omit h in
lemma mem_of_firstAnswer {layers : List (List String)} {r : Relation} {n : String} {d : ℕ}
    (hlayers : ∀ layer ∈ layers, ∀ n ∈ layer, n ∈ t.ids)
    (hn : t.firstAnswer b layers = some (r, n, d)) : n ∈ t.ids := by
  obtain ⟨⟨layer, depth⟩, hlayer, hfound⟩ := List.exists_of_findSome?_eq_some hn
  obtain ⟨m, hm, hanswer⟩ := List.exists_of_findSome?_eq_some hfound
  obtain ⟨_, -, heq⟩ := Option.map_eq_some_iff.mp hanswer
  cases heq
  exact hlayers layer (List.fst_mem_of_mem_zipIdx hlayer) n hm

omit h in
lemma number_mem_avoiding {c : String} (hc : c ∈ t.ids) (a b : String) (avoiding : List String) :
    t.number c ∈ t.number a :: t.number b :: avoiding.filterMap t.store.number? ↔
      c ∈ a :: b :: avoiding := by
  have hrest : t.number c ∈ avoiding.filterMap t.store.number? ↔ c ∈ avoiding := by
    rw [List.mem_filterMap]
    refine ⟨?_, fun h => ⟨c, h, number?_of_mem hc⟩⟩
    rintro ⟨d, hd, hnumber⟩
    by_cases hmem : d ∈ t.ids
    · rw [number?_of_mem hmem, Option.some.injEq, number_inj hmem] at hnumber
      exact hnumber ▸ hd
    · rw [number?_of_not_mem hmem] at hnumber
      cases hnumber
  rw [List.mem_cons, List.mem_cons, List.mem_cons, List.mem_cons, number_inj hc, number_inj hc,
    hrest]

lemma WellKept.store_search (limit : UInt64) (a b : String) (avoiding : List String) :
    t.store.search limit a b avoiding = pure (t.search limit a b avoiding) := by
  unfold Store.search search
  rw [h.store_resolve, pure_bind]
  cases t.resolve a b with
  | some r => rfl
  | none =>
    by_cases hab : a ∈ t.ids ∧ b ∈ t.ids
    · obtain ⟨ha, hb⟩ := hab
      have hlayers : ∀ layer ∈ (Walk.layers t.successors (limit.toNat + 1)
          (a :: b :: avoiding) [a]).take limit.toNat, ∀ n ∈ layer, n ∈ t.ids :=
        fun layer hlayer => h.forall_mem_layers ha layer (List.mem_of_mem_take hlayer)
      dsimp only
      rw [number?_of_mem ha, number?_of_mem hb, if_pos ⟨ha, hb⟩]
      dsimp only
      rw [h.readLayers_store (fun c hc => number_mem_avoiding hc a b avoiding) ha, pure_bind,
        ← List.map_take, h.store_firstAnswer hb hlayers, pure_bind, List.length_map]
      cases hfirst : t.firstAnswer b _ with
      | none => rfl
      | some e =>
        obtain ⟨r, n, depth⟩ := e
        dsimp only [Option.map_some]
        rw [id_store (mem_of_firstAnswer hlayers hfirst), pure_bind]
    · dsimp only
      rw [if_neg hab]
      by_cases ha : a ∈ t.ids
      · rw [number?_of_mem ha, number?_of_not_mem fun hb => hab ⟨ha, hb⟩]
      · rw [number?_of_not_mem ha]

/-! ### Taking in with care -/

lemma WellKept.store_precedes (a b : String) :
    t.store.precedes a b = pure (t.precedes a b) := by
  unfold Store.precedes
  by_cases hab : a ∈ t.ids ∧ b ∈ t.ids
  · obtain ⟨ha, hb⟩ := hab
    have hseen : ∀ c ∈ t.ids, t.number c ∈ [t.number a] ↔ c ∈ [a] := fun c hc => by
      rw [List.mem_singleton, List.mem_singleton, number_inj hc]
    have hwithin : ∀ c ∈ Walk.within t.successors t.ids.length a, c ∈ t.ids := fun c hc => by
      rcases List.mem_cons.mp hc with rfl | hc
      · exact ha
      · obtain ⟨layer, hlayer, hmem⟩ := List.mem_flatten.mp hc
        exact h.forall_mem_layers ha layer hlayer c hmem
    have hnames : t.number a :: ((Walk.layers t.successors t.store.ids.length [a] [a]).map
        (List.map t.number)).flatten =
          (Walk.within t.successors t.ids.length a).map t.number := by
      rw [Walk.within, List.map_cons, List.map_flatten]
      rfl
    have hread : ((Walk.within t.successors t.ids.length a).map t.number).mapM
        t.store.successors = pure ((Walk.within t.successors t.ids.length a).map
          fun c => (t.successors c).map t.number) :=
      mapM_map_eq_pure fun c hc => successors_store (hwithin c hc)
    rw [number?_of_mem ha, number?_of_mem hb]
    dsimp only
    rw [h.readLayers_store hseen ha, pure_bind, hnames, hread, pure_bind, ← List.flatMap_def,
      ← List.map_flatMap, precedes]
    simp only [Walk.mem_map_iff (fun _ hc _ => number_inj hc) hb]
  · -- a path leads from and to known ids only
    have hnone : t.precedes a b = false :=
      Bool.eq_false_iff.mpr fun hp => hab (h.mem_ids_of_leads (precedes_iff.mp hp))
    rw [hnone]
    by_cases ha : a ∈ t.ids
    · rw [number?_of_mem ha, number?_of_not_mem fun hb => hab ⟨ha, hb⟩]
    · rw [number?_of_not_mem ha]

lemma WellKept.store_contradiction? (f : Fact) :
    t.store.contradiction? f = pure (t.contradiction? f) := by
  unfold Store.contradiction? contradiction?
  rw [h.store_relation, pure_bind]
  cases t.relation f.subject f.object <;> rfl

lemma WellKept.store_closesCycle (f : Fact) :
    t.store.closesCycle f = pure (t.closesCycle f) := by
  unfold Store.closesCycle closesCycle
  cases f.relation with
  | equal => rfl
  | less | greater => simp only [h.store_precedes, pure_bind]

lemma WellKept.store_refusal? (f : Fact) : t.store.refusal? f = pure (t.refusal? f) := by
  unfold Store.refusal?
  rw [refusal?_eq_or, h.store_contradiction?, pure_bind]
  cases t.contradiction? f with
  | some fault => rfl
  | none =>
    dsimp only
    rw [Option.none_or]
    by_cases hs : f.relation.isStrict = true
    · rw [if_pos hs, if_pos hs, h.store_contradiction?, pure_bind]
      cases t.contradiction? f.converse with
      | some fault => rfl
      | none =>
        dsimp only
        rw [h.store_closesCycle, pure_bind, Option.none_or]
    · rw [if_neg hs, if_neg hs]

lemma WellKept.store_tryRecord (f : Fact) :
    t.store.tryRecord f =
      pure (match t.refusal? f with
        | some _ => t
        | none => t.record f).store := by
  unfold Store.tryRecord
  rw [h.store_refusal?, pure_bind]
  cases t.refusal? f with
  | some fault => rfl
  | none => exact h.store_record f

end Table

end RuleOrder
