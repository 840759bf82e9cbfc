import RuleOrder.Proofs.Queue.Search

/-!
Walks do linear work.

The test for a cycle is a walk by a queue too. It looks for an id among the successors of what
it takes out, and when it finds none the ids that came in are all that can be reached. Whatever
the table holds, neither of the two walks lets an id in twice, so each of them ends after at
most as many times round as there are ids.
-/

namespace RuleOrder

namespace Table

/-! ### The test for a cycle by a queue -/

/-- Look for `b` among some ids, and let those before it in that were not seen. -/
def lookFor (b : String) : List String → Queue String → Turn (Queue String) (Bool × Queue String)
  | [], q => .again q
  | v :: rest, q =>
    if v = b then .done (true, q)
    else if v ∈ q.seen then lookFor b rest q
    else lookFor b rest (q.enter v v)

/-- The test up to its loop. -/
def precedesStart (t : Table) (a b : String) : Turn (Queue String) (Bool × Queue String) :=
  if a ∈ t.ids ∧ b ∈ t.ids then .again (({} : Queue String).enter a a) else .done (false, {})

/-- One time round the loop of the test. -/
def precedesTurn (t : Table) (b : String) (q : Queue String) :
    Turn (Queue String) (Bool × Queue String) :=
  match q.waiting with
  | [] => .done (false, q)
  | n :: _ => lookFor b (t.successors n) q.pop

lemma keeps_lookFor (b : String) (vs : List String) (q : Queue String) :
    (lookFor b vs q).Keeps
      (fun q' => b ∉ vs ∧ q' = q.enterAll id (Walk.fresh q.seen vs))
      fun out => b ∈ vs ∧ ∃ us ⊆ vs, out = (true, q.enterAll id (Walk.fresh q.seen us)) := by
  induction vs generalizing q with
  | nil => exact ⟨List.not_mem_nil, rfl⟩
  | cons v rest ih =>
    unfold lookFor
    by_cases hb : v = b
    · rw [if_pos hb]
      exact ⟨hb ▸ List.mem_cons_self, [], List.nil_subset _, rfl⟩
    · have hne : b ≠ v := fun h => hb h.symm
      rw [if_neg hb]
      by_cases hv : v ∈ q.seen
      · rw [if_pos hv]
        refine (ih q).imp ?_ ?_
        · rintro q' ⟨hmem, hq'⟩
          rw [Walk.fresh, if_pos hv]
          exact ⟨List.not_mem_cons_of_ne_of_not_mem hne hmem, hq'⟩
        · rintro out ⟨hmem, us, hus, hout⟩
          exact ⟨List.mem_cons_of_mem v hmem, us, List.subset_cons_of_subset v hus, hout⟩
      · rw [if_neg hv]
        refine (ih (q.enter v v)).imp ?_ ?_
        · rintro q' ⟨hmem, hq'⟩
          rw [Walk.fresh, if_neg hv]
          exact ⟨List.not_mem_cons_of_ne_of_not_mem hne hmem, hq'⟩
        · rintro out ⟨hmem, us, hus, hout⟩
          refine ⟨List.mem_cons_of_mem v hmem, v :: us, List.cons_subset_cons v hus, ?_⟩
          rw [Walk.fresh, if_neg hv]
          exact hout

/-- A test on its way: what came in is led to, and what was taken out led to nothing else. -/
structure Tested (t : Table) (a b : String) (q : Queue String) : Prop
    extends q.Kept id t.ids [] where
  start : a ∈ q.entered
  led : ∀ v ∈ q.entered, v = a ∨ t.Leads a v
  closed : ∀ u ∈ q.left, ∀ v ∈ t.successors u, v ≠ b ∧ v ∈ q.entered

variable {t : Table} {a b n : String} {q : Queue String}

lemma Tested.mem_seen_iff (h : t.Tested a b q) {v : String} : v ∈ q.seen ↔ v ∈ q.entered := by
  have hseen := h.seen v
  rw [List.map_id] at hseen
  simpa using hseen

lemma Tested.not_leads (h : t.Tested a b q) (hw : q.waiting = []) : ¬t.Leads a b := by
  have hleft : ∀ v ∈ q.entered, v ∈ q.left := by
    intro v hv
    rwa [Queue.entered, hw, List.append_nil] at hv
  have hled : ∀ v, t.Leads a v → v ≠ b ∧ v ∈ q.entered := by
    intro v hv
    induction hv with
    | single hav => exact h.closed a (hleft a h.start) _ (mem_successors.mpr hav)
    | tail _ huv ih => exact h.closed _ (hleft _ ih.2) _ (mem_successors.mpr huv)
  exact fun hb => (hled b hb).1 rfl

lemma Tested.led_succ (h : t.Tested a b q) (hn : n ∈ q.entered) {v : String}
    (hv : v ∈ t.successors n) : t.Leads a v := by
  have hnv : t.relation n v = some .less := mem_successors.mp hv
  rcases h.led n hn with rfl | hl
  · exact .single hnv
  · exact .tail hl hnv

lemma Tested.enterAll (hk : t.WellKept) (h : t.Tested a b q) {rest : List String}
    (hw : q.waiting = n :: rest) (hb : b ∉ t.successors n) :
    t.Tested a b (q.pop.enterAll id (Walk.fresh q.pop.seen (t.successors n))) := by
  have hn : n ∈ q.entered := by simp [Queue.entered, hw]
  have hentered : ∀ v, v ∈ (q.pop.enterAll id (Walk.fresh q.pop.seen (t.successors n))).entered ↔
      v ∈ q.entered ∨ v ∈ t.successors n := by
    intro v
    rw [Queue.entered_enterAll, Queue.entered_pop, Queue.seen_pop, List.map_id, List.mem_append,
      Walk.mem_fresh, h.mem_seen_iff]
    tauto
  refine ⟨h.toKept.pop.enterAll (fun _ => rfl) (hk.mem_ids_of_mem_successors n), ?_,
    fun v hv => ?_, fun u hu v hv => ?_⟩
  · exact (hentered a).mpr (Or.inl h.start)
  · rcases (hentered v).mp hv with hv | hv
    · exact h.led v hv
    · exact Or.inr (h.led_succ hn hv)
  · rw [Queue.left_enterAll, Queue.pop_of_waiting hw, List.mem_append, List.mem_singleton] at hu
    rw [hentered v]
    rcases hu with hu | rfl
    · exact ⟨(h.closed u hu v hv).1, Or.inl (h.closed u hu v hv).2⟩
    · exact ⟨fun hvb => hb (hvb ▸ hv), Or.inr hv⟩

lemma Tested.keeps_precedesTurn (hk : t.WellKept) (h : t.Tested a b q) :
    (t.precedesTurn b q).Keeps
      (fun q' => t.Tested a b q' ∧
        t.ids.length - q'.left.length < t.ids.length - q.left.length)
      fun out => out.1 = t.precedes a b ∧ out.2.Linear id t.ids.length := by
  unfold precedesTurn
  split
  · next hw =>
    have hno : t.precedes a b = false :=
      Bool.eq_false_iff.mpr fun hp => h.not_leads hw (precedes_iff.mp hp)
    exact ⟨hno.symm, h.toKept.linear⟩
  · next n rest hw =>
    have hn : n ∈ q.entered := by simp [Queue.entered, hw]
    refine (keeps_lookFor b (t.successors n) q.pop).imp ?_ ?_
    · rintro q' ⟨hb, rfl⟩
      refine ⟨h.enterAll hk hw hb, ?_⟩
      rw [Queue.left_enterAll]
      exact h.toKept.sub_length_left_pop_lt hw
    · rintro out ⟨hb, us, hus, rfl⟩
      have hyes : t.precedes a b = true := precedes_iff.mpr (h.led_succ hn hb)
      have hkept : (q.pop.enterAll id (Walk.fresh q.pop.seen us)).Kept id t.ids [] :=
        h.toKept.pop.enterAll (fun _ => rfl) fun v hv => hk.mem_ids_of_mem_successors n v (hus hv)
      exact ⟨hyes.symm, hkept.linear⟩

/-- **The test for a cycle by a queue ends**, and it comes out as the test by layers does. -/
theorem WellKept.exists_endsIn_precedes (hk : t.WellKept) (a b : String) :
    ∃ q, Turn.EndsIn (t.precedesTurn b) (t.precedesStart a b) (t.precedes a b, q) ∧
      q.Linear id t.ids.length := by
  have hstart : (t.precedesStart a b).Keeps (t.Tested a b)
      fun out => out.1 = t.precedes a b ∧ out.2.Linear id t.ids.length := by
    unfold precedesStart
    split
    · next hab =>
      refine ⟨⟨?_, ?_, ?_, ?_⟩, ?_, ?_, ?_⟩ <;> simp [Queue.enter, Queue.entered, hab.1]
    · next hab =>
      have hno : t.precedes a b = false :=
        Bool.eq_false_iff.mpr fun hp => hab (hk.mem_ids_of_leads (precedes_iff.mp hp))
      exact ⟨hno.symm, Queue.linear_empty _ _⟩
  obtain ⟨⟨r, q⟩, hends, rfl, hq⟩ :=
    Turn.exists_endsIn (fun q hq => Tested.keeps_precedesTurn hk hq) hstart
  exact ⟨q, hends, hq⟩

end Table

/-! ### Both walks -/

namespace Graph

variable {ν : Type} [Identified ν] {g : Graph ν}

/-- **Both walks do linear work**, whatever was made of the graph: they end, with the outcomes
of the search and of the test for a cycle; in each walk an id comes into the queue at most once,
and the loop goes round at most as many times as there are ids. Into the queue of a search comes
neither of the two ids and none that is to be avoided, and none deeper than the limit; and as no
depth below a limit is the largest there is, none runs over. -/
theorem endsIn_of_reached (hg : g.Reached) (a b : String) :
    (∀ avoiding, ∃ q,
      Turn.EndsIn (g.table.searchTurn g.maxDepth b)
        (g.table.searchStart g.maxDepth a b avoiding)
        (g.table.search g.maxDepth a b avoiding, q) ∧
      q.Linear Prod.fst g.table.ids.length ∧
      ∀ e ∈ q.entered, e.1 ∉ a :: b :: avoiding ∧ e.2 ≤ g.maxDepth) ∧
    ∃ q,
      Turn.EndsIn (g.table.precedesTurn b) (g.table.precedesStart a b)
        (g.table.precedes a b, q) ∧
      q.Linear id g.table.ids.length := by
  have hk := hg.wellKept
  refine ⟨fun avoiding => ?_, hk.exists_endsIn_precedes a b⟩
  obtain ⟨out, hends, hlinear, hwithin⟩ := hk.exists_endsIn_search g.maxDepth a b avoiding
  obtain ⟨q, hq⟩ := hk.yields_search g.maxDepth a b avoiding
  obtain rfl := hends.unique hq
  exact ⟨q, hq, hlinear, hwithin⟩

/-- Facts in a circle, an id that stands before itself, a fact that was denied later, and the
highest limit there is. -/
def entangled : Graph String :=
  (withDepth ["a"] 18446744073709551615).run [.record ⟨"a", .less, "b"⟩,
    .record ⟨"b", .less, "c"⟩, .record ⟨"c", .less, "a"⟩, .record ⟨"c", .greater, "c"⟩,
    .record ⟨"c", .less, "d"⟩, .record ⟨"d", .equal, "c"⟩, .record ⟨"e", .less, "e"⟩]

/-- The search goes round twice, and the test for a cycle four times. -/
theorem endsIn_entangled :
    entangled.Reached ∧
    (∃ q,
      Turn.EndsIn (entangled.table.searchTurn entangled.maxDepth "e")
        (entangled.table.searchStart entangled.maxDepth "a" "e" ["d", "f"]) (.unrelated, q) ∧
      q.Linear Prod.fst entangled.table.ids.length ∧
      (∀ e ∈ q.entered, e.1 ∉ ["a", "e", "d", "f"] ∧ e.2 ≤ entangled.maxDepth) ∧
      q.left = [("b", 1), ("c", 2)]) ∧
    ∃ q,
      Turn.EndsIn (entangled.table.precedesTurn "e") (entangled.table.precedesStart "a" "e")
        (false, q) ∧
      q.Linear id entangled.table.ids.length ∧ q.left = ["a", "b", "c", "d"] := by
  have hreached : entangled.Reached := ⟨_, .withDepth _ _, _, rfl⟩
  obtain ⟨hsearch, p, hp, hplinear⟩ := endsIn_of_reached hreached "a" "e"
  obtain ⟨q, hq, hqlinear, hqwithin⟩ := hsearch ["d", "f"]
  -- each loop followed to its end
  have hqrun : Turn.EndsIn (entangled.table.searchTurn entangled.maxDepth "e")
      (entangled.table.searchStart entangled.maxDepth "a" "e" ["d", "f"])
      (.unrelated, ⟨[("b", 1), ("c", 2)], [], ["c", "b", "a", "e", "d"]⟩) :=
    .of_eq rfl (.of_eq rfl (.of_eq rfl (.done _)))
  have hprun : Turn.EndsIn (entangled.table.precedesTurn "e")
      (entangled.table.precedesStart "a" "e")
      (false, ⟨["a", "b", "c", "d"], [], ["d", "c", "b", "a"]⟩) :=
    .of_eq rfl (.of_eq rfl (.of_eq rfl (.of_eq rfl (.of_eq rfl (.done _)))))
  obtain ⟨-, rfl⟩ := Prod.mk.inj (hq.unique hqrun)
  obtain ⟨-, rfl⟩ := Prod.mk.inj (hp.unique hprun)
  exact ⟨hreached, ⟨_, hqrun, hqlinear, hqwithin, rfl⟩, _, hprun, hplinear, rfl⟩

end Graph

end RuleOrder
