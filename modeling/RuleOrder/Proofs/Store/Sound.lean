import Mathlib.Data.List.Induction
import Mathlib.Data.List.Nodup
import RuleOrder.Proofs.Store.Search

/-!
Stores that are reached.

A store that is reached by calls is sound. Its ids are distinct and numbered by their places,
each number has one row, and rows, weights and equalities speak of no other number. No reading
goes astray on the way to it or in a query of it, and what it answers is what the table of the
graph says. Strict relations stand on both of their sides, except where one side alone was made
level since.
-/

namespace RuleOrder

namespace Store

/-- The row of `m` holds the relation `r` to `n`. -/
def Holds (s : Store) (m n : ℕ) (r : Relation) : Prop := ∃ row, s.row m = .ok row ∧ (n, r) ∈ row

/-- What holds of a store whatever was done to it. -/
structure Sound (s : Store) : Prop where
  nodup_ids : s.ids.Nodup
  number?_eq_some_iff : ∀ a n, s.number? a = some n ↔ s.id n = .ok a
  length_rows : s.rows.length = s.ids.length
  nodup_peers : ∀ row ∈ s.rows, (row.map Prod.fst).Nodup
  peer_lt : ∀ row ∈ s.rows, ∀ e ∈ row, e.1 < s.ids.length
  weight_lt : ∀ n w, s.weights n = some w → n < s.ids.length
  equality_lt : ∀ p ∈ s.equalities, p.1 < s.ids.length ∧ p.2 < s.ids.length
  said : ∀ m n, s.Holds m n .equal → (m, n) ∈ s.equalities
  written : ∀ p ∈ s.equalities, ∃ r, s.Holds p.1 p.2 r
  mirrored : ∀ a b r, a ≠ b → s.relation a b = .ok (some r) → r.isStrict = true →
    s.relation b a = .ok (some r.inverse) ∨ s.relation b a = .ok (some .equal)

/-- Every query of the store answers, and what it answers is what `t` says. -/
structure Answers (s : Store) (t : Table) : Prop where
  weight : ∀ a, s.weight a = t.weight a
  relation : ∀ a b, s.relation a b = .ok (t.relation a b)
  relationsOf : ∀ a, s.relationsOf a = .ok (t.relationsOf a)
  namedEqualities : s.namedEqualities = .ok t.equalities
  shownRows : s.shownRows = .ok (t.shownRows.map fun e => (e.1, e.2.weight, e.2.edges.entries))
  search : ∀ limit a b avoiding, s.search limit a b avoiding = .ok (t.search limit a b avoiding)
  refusal? : ∀ f, s.refusal? f = .ok (t.refusal? f)

end Store

namespace Table

variable {t : Table} {a : String} {n : ℕ}

lemma WellKept.answers_store (h : t.WellKept) : t.store.Answers t :=
  ⟨t.store_weight, h.store_relation, h.store_relationsOf, h.store_namedEqualities,
    h.store_shownRows, h.store_search, h.store_refusal?⟩

/-! ### The numbers of a table -/

lemma number_eq_of_getElem? (h : t.ids[n]? = some a) : t.number a = n := by
  obtain ⟨hlt, rfl⟩ := List.getElem?_eq_some_iff.mp h
  exact t.nodup_ids.idxOf_getElem n hlt

lemma number?_store_eq_some_iff : t.store.number? a = some n ↔ t.store.id n = .ok a := by
  rw [Store.id_eq_ok_iff]
  by_cases ha : a ∈ t.ids
  · rw [number?_of_mem ha, Option.some.injEq]
    refine ⟨?_, number_eq_of_getElem?⟩
    rintro rfl
    exact getElem?_number ha
  · rw [number?_of_not_mem ha]
    exact iff_of_false nofun fun h => ha (List.mem_of_getElem? h)

lemma holds_store_iff {m n : ℕ} {r : Relation} :
    t.store.Holds m n r ↔
      ∃ a b, t.number a = m ∧ t.number b = n ∧ t.relation a b = some r := by
  constructor
  · rintro ⟨row, hrow, hmem⟩
    rw [Store.row_eq_ok_iff, store, List.getElem?_map, Option.map_eq_some_iff] at hrow
    obtain ⟨a, ha, rfl⟩ := hrow
    obtain ⟨⟨b, _⟩, hb, heq⟩ := List.mem_map.mp hmem
    cases heq
    exact ⟨a, b, number_eq_of_getElem? ha, rfl, relation_eq_some_iff.mpr hb⟩
  · rintro ⟨a, b, rfl, rfl, hr⟩
    exact ⟨_, row_store (mem_ids_of_relation hr),
      List.mem_map_of_mem (f := fun e => (t.number e.1, e.2)) (relation_eq_some_iff.mp hr)⟩

/-- **The store of a well-kept table is sound.** -/
lemma WellKept.sound_store (h : t.WellKept) (hm : t.Mirrored) : t.store.Sound where
  nodup_ids := t.nodup_ids
  number?_eq_some_iff _ _ := number?_store_eq_some_iff
  length_rows := List.length_map ..
  nodup_peers row hrow := by
    obtain ⟨a, -, rfl⟩ := List.mem_map.mp hrow
    have hpeers : (t.numbered (t.relationsOf a)).map Prod.fst =
        ((t.relationsOf a).map Prod.fst).map t.number := by
      rw [numbered, List.map_map, List.map_map]
      rfl
    rw [hpeers]
    refine List.Nodup.map_on (fun b hb c _ hbc => ?_) (t.row a).edges.nodup_keys
    obtain ⟨e, he, rfl⟩ := List.mem_map.mp hb
    exact (number_inj (h.mem_ids_of_mem_relationsOf a e he)).mp hbc
  peer_lt row hrow e he := by
    obtain ⟨a, -, rfl⟩ := List.mem_map.mp hrow
    obtain ⟨e', he', rfl⟩ := List.mem_map.mp he
    exact number_lt (h.mem_ids_of_mem_relationsOf a e' he')
  weight_lt n w hw := by
    obtain ⟨a, ha, -⟩ := Option.bind_eq_some_iff.mp hw
    exact (List.getElem?_eq_some_iff.mp ha).1
  equality_lt p hp := by
    obtain ⟨q, hq, rfl⟩ := List.mem_map.mp hp
    exact ⟨number_lt (h.fst_mem_ids hq), number_lt (h.snd_mem_ids hq)⟩
  said m n hmn := by
    obtain ⟨a, b, rfl, rfl, hr⟩ := holds_store_iff.mp hmn
    exact List.mem_map.mpr ⟨(a, b), h.said a b hr, rfl⟩
  written p hp := by
    obtain ⟨q, hq, rfl⟩ := List.mem_map.mp hp
    obtain ⟨r, hr⟩ := Option.isSome_iff_exists.mp (h.written q hq)
    exact ⟨r, holds_store_iff.mpr ⟨q.1, q.2, rfl, rfl, hr⟩⟩
  mirrored a b r hab hr hs := by
    rw [h.store_relation] at hr ⊢
    exact (hm a b r hab (Except.ok.inj hr) hs).imp (congrArg Except.ok) (congrArg Except.ok)

end Table

/-! ### Calls -/

namespace Graph

variable {ν : Type} [Identified ν] {g : Graph ν}

lemma store_after (h : g.table.WellKept) (c : Call ν) :
    g.table.store.after c = pure (g.after c).table.store := by
  have htry : ∀ f, g.table.store.tryRecord f = pure (g.after (.tryRecord f)).table.store := by
    intro f
    rw [h.store_tryRecord, after, call_tryRecord, Table.tryRecord]
    cases g.table.refusal? f <;> rfl
  cases c with
  | record f => exact h.store_record f
  | recordSymbol a b symbol => exact h.store_record _
  | tryRecord f => exact htry f
  | tryRecordSymbol a b symbol =>
    rw [Store.after]
    cases hs : Relation.ofSymbol? symbol with
    | none =>
      rw [after_eq_of_call_eq_error (call_tryRecordSymbol_of_none hs)]
    | some r =>
      dsimp only
      rw [htry, after, after, call_tryRecordSymbol_of_some hs]
  | setWeight a w => exact congrArg pure (h.store_setWeight a w)
  | derive => exact h.store_derive
  | pushNode node => rfl
  | tryPushNode node =>
    rw [after, call, tryPushNode]
    split_ifs <;> rfl

lemma store_run (hg : g.Made) (cs : List (Call ν)) :
    (∅ : Store).run cs = pure (g.run cs).table.store := by
  induction cs using List.reverseRecOn with
  | nil =>
    rw [run_nil, hg.table_eq]
    rfl
  | append_singleton cs c ih =>
    have hreached : (g.run cs).Reached := ⟨g, hg, cs, rfl⟩
    unfold Store.run at ih ⊢
    rw [List.foldlM_append, ih, pure_bind, run_append, List.foldlM_cons,
      store_after hreached.wellKept c, pure_bind]
    rfl

/-- **Every store that is reached is sound**: from any graph made from nodes and by any calls,
no reading goes astray, what is reached is sound, and each query of it answers as the table of
the graph does. -/
theorem sound_run (hg : g.Made) (cs : List (Call ν)) :
    ∃ s, (∅ : Store).run cs = .ok s ∧ s.Sound ∧ s.Answers (g.run cs).table := by
  have hreached : (g.run cs).Reached := ⟨g, hg, cs, rfl⟩
  exact ⟨(g.run cs).table.store, store_run hg cs,
    hreached.wellKept.sound_store hreached.mirrored, hreached.wellKept.answers_store⟩

/-- Calls that make one side of a strict relation level, let an id stand before itself, and
pass on what was written for both. -/
def overSides : List (Call String) :=
  [.record ⟨"a", .less, "b"⟩, .setWeight "c" 4, .recordSymbol "b" "a" "=",
    .record ⟨"d", .less, "d"⟩, .recordSymbol "a" "d" "==>", .derive, .pushNode "b",
    .tryRecord ⟨"b", .less, "a"⟩]

theorem sound_run_overSides :
    (ofNodes ["a"]).Made ∧
    ∃ s, (∅ : Store).run overSides = .ok s ∧ s.Sound ∧
      s.Answers ((ofNodes ["a"]).run overSides).table ∧
      s.relation "a" "b" = .ok (some .less) ∧ s.relation "b" "a" = .ok (some .equal) ∧
      s.rows = [[(1, .less), (3, .greater)], [(0, .equal), (1, .greater)], [],
        [(3, .greater), (0, .less)]] := by
  obtain ⟨s, hs, hsound, hanswers⟩ := sound_run (.ofNodes ["a"]) overSides
  have hrows : ((∅ : Store).run overSides).map Store.rows =
      .ok [[(1, .less), (3, .greater)], [(0, .equal), (1, .greater)], [],
        [(3, .greater), (0, .less)]] := rfl
  rw [hs] at hrows
  refine ⟨.ofNodes _, s, hs, hsound, hanswers, ?_, ?_, Except.ok.inj hrows⟩
  · rw [hanswers.relation]
    exact congrArg Except.ok (by decide)
  · rw [hanswers.relation]
    exact congrArg Except.ok (by decide)

end Graph

end RuleOrder
