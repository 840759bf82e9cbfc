import RuleOrder.Proofs.Queue.Basic
import RuleOrder.Proofs.Reached

/-!
The search by a queue.

A search keeps each node in its queue together with its depth, and takes down whether the limit
kept a node out. As long as it goes on, what waits is the rest of one layer and then as much of
the next layer as was found so far. So it tests the nodes in the order of the layers, and it
ends as the search by layers does, with what the first node that is known of says, or with the
last layer within the limit.
-/

namespace RuleOrder

/-- A search on its way. -/
structure Scan where
  queue : Queue (String × UInt64) := {}
  /-- Whether a node was kept out by the limit. -/
  cut : Bool := false

namespace Table

/-- Let the ids that were not seen come in, one deeper than `depth`; but at the limit let none
in, and take down that there is one. -/
def expand (limit depth : UInt64) :
    List String → Scan → Turn Scan (Verdict × Queue (String × UInt64))
  | [], s => .again s
  | v :: rest, s =>
    if v ∈ s.queue.seen then expand limit depth rest s
    else if limit ≤ depth then .again { s with cut := true }
    else if depth.toNat + 1 < UInt64.size then
      expand limit depth rest { s with queue := s.queue.enter v (v, depth + 1) }
    else .overflow

/-- A search up to its loop. -/
def searchStart (t : Table) (limit : UInt64) (a b : String) (avoiding : List String) :
    Turn Scan (Verdict × Queue (String × UInt64)) :=
  match t.resolve a b with
  | some r => .done (.direct r, {})
  | none =>
    if a ∈ t.ids ∧ b ∈ t.ids then
      expand limit 0 (t.successors a)
        { queue := { seen := a :: b :: avoiding.filter (· ∈ t.ids) } }
    else .done (.unrelated, {})

/-- One time round the loop of a search. -/
def searchTurn (t : Table) (limit : UInt64) (b : String) (s : Scan) :
    Turn Scan (Verdict × Queue (String × UInt64)) :=
  match s.queue.waiting with
  | [] => .done (if s.cut then .undecided else .unrelated, s.queue)
  | (n, depth) :: _ =>
    match t.resolve n b with
    | some r => .done (.via r n depth.toNat, s.queue.pop)
    | none => expand limit depth (t.successors n) { s with queue := s.queue.pop }

end Table

/-! ### Letting in what is fresh -/

/-- A search after the fresh successors of a node at some depth. -/
def Scan.expanded (s : Scan) (limit depth : UInt64) (vs : List String) : Scan :=
  if depth < limit then { s with queue := s.queue.enterAll (fun v => (v, depth + 1)) vs }
  else { s with cut := s.cut || !vs.isEmpty }

namespace Table

variable {t : Table} {limit depth : UInt64} {a b : String} {avoiding : List String} {s : Scan}

lemma toNat_succ (h : depth < limit) : (depth + 1).toNat = depth.toNat + 1 := by
  have hlimit := limit.toNat_lt
  rw [UInt64.lt_iff_toNat_lt] at h
  rw [UInt64.toNat_add, UInt64.toNat_one, Nat.mod_eq_of_lt (by omega)]

/-- **No depth runs over**, for only those below the limit are added to. -/
lemma expand_eq (limit depth : UInt64) (vs : List String) (s : Scan) :
    expand limit depth vs s = .again (s.expanded limit depth (Walk.fresh s.queue.seen vs)) := by
  induction vs generalizing s with
  | nil =>
    unfold expand Walk.fresh Scan.expanded
    split <;> simp
  | cons v rest ih =>
    unfold expand Walk.fresh
    by_cases hv : v ∈ s.queue.seen
    · rw [if_pos hv, if_pos hv, ih]
    · rw [if_neg hv, if_neg hv]
      by_cases hd : depth < limit
      · have hle : ¬limit ≤ depth := UInt64.not_le.mpr hd
        have hsize : depth.toNat + 1 < UInt64.size := by
          have := limit.toNat_lt
          rw [UInt64.lt_iff_toNat_lt] at hd
          unfold UInt64.size
          omega
        rw [if_neg hle, if_pos hsize, ih]
        unfold Scan.expanded
        rw [if_pos hd, if_pos hd]
        rfl
      · rw [if_pos (UInt64.not_lt.mp hd), Scan.expanded, if_neg hd]
        simp

/-! ### What a search lets in -/

lemma left_expanded (s : Scan) (limit depth : UInt64) (vs : List String) :
    (s.expanded limit depth vs).queue.left = s.queue.left := by
  unfold Scan.expanded
  split
  · exact Queue.left_enterAll ..
  · rfl

/-- A queue of a search: each id came in once, and none came in deeper than the limit. -/
structure Limited (q : Queue (String × UInt64)) (ids barred : List String) (limit : UInt64) : Prop
    extends q.Kept Prod.fst ids barred where
  depth_le : ∀ e ∈ q.entered, e.2 ≤ limit

variable {ids barred : List String}

lemma Limited.pop {q : Queue (String × UInt64)} (h : Limited q ids barred limit) :
    Limited q.pop ids barred limit :=
  ⟨h.toKept.pop, by simpa using h.depth_le⟩

lemma Limited.expanded (h : Limited s.queue ids barred limit) (depth : UInt64) {vs : List String}
    (hids : ∀ v ∈ vs, v ∈ ids) :
    Limited (s.expanded limit depth (Walk.fresh s.queue.seen vs)).queue ids barred limit := by
  unfold Scan.expanded
  split
  · next hd =>
    refine ⟨h.toKept.enterAll (fun _ => rfl) hids, fun e he => ?_⟩
    rw [Queue.entered_enterAll, List.mem_append, List.mem_map] at he
    rcases he with he | ⟨v, -, rfl⟩
    · exact h.depth_le e he
    · rw [UInt64.le_iff_toNat_le, toNat_succ hd]
      exact UInt64.lt_iff_toNat_lt.mp hd
  · exact h

lemma Limited.keeps_searchTurn (h : t.WellKept) (hs : Limited s.queue t.ids barred limit) :
    (t.searchTurn limit b s).Keeps
      (fun s' => Limited s'.queue t.ids barred limit ∧
        t.ids.length - s'.queue.left.length < t.ids.length - s.queue.left.length)
      fun out => Limited out.2 t.ids barred limit := by
  unfold searchTurn
  split
  · exact hs
  · next n depth rest hw =>
    split
    · exact hs.pop
    · rw [expand_eq]
      refine ⟨hs.pop.expanded depth (h.mem_ids_of_mem_successors n), ?_⟩
      rw [left_expanded]
      exact hs.toKept.sub_length_left_pop_lt hw

/-- **A search by a queue ends**: each id comes in at most once, none that is to be avoided comes
in, and no depth is beyond the limit. -/
theorem WellKept.exists_endsIn_search (h : t.WellKept) (limit : UInt64) (a b : String)
    (avoiding : List String) :
    ∃ out, Turn.EndsIn (t.searchTurn limit b) (t.searchStart limit a b avoiding) out ∧
      out.2.Linear Prod.fst t.ids.length ∧
      ∀ e ∈ out.2.entered, e.1 ∉ a :: b :: avoiding ∧ e.2 ≤ limit := by
  have hkept : ∀ q, Limited q t.ids (a :: b :: avoiding.filter (· ∈ t.ids)) limit →
      q.Linear Prod.fst t.ids.length ∧
        ∀ e ∈ q.entered, e.1 ∉ a :: b :: avoiding ∧ e.2 ≤ limit := by
    intro q hq
    refine ⟨hq.toKept.linear, fun e he => ⟨fun hmem => ?_, hq.depth_le e he⟩⟩
    have hname : e.1 ∈ q.entered.map Prod.fst := List.mem_map_of_mem he
    have hclear := hq.clear e.1 hname
    have hknown := hq.known e.1 hname
    simp only [List.mem_cons, List.mem_filter, decide_eq_true_eq] at hclear hmem
    tauto
  refine Turn.exists_endsIn (P := fun s => Limited s.queue t.ids _ limit)
    (fun s hs => (hs.keeps_searchTurn h).imp (fun _ => id) fun out => hkept out.2) ?_
  unfold searchStart
  split
  · exact ⟨Queue.linear_empty _ _, by simp [Queue.entered]⟩
  · split
    · rw [expand_eq]
      refine Limited.expanded ⟨⟨?_, ?_, ?_, ?_⟩, ?_⟩ 0 (h.mem_ids_of_mem_successors a) <;>
        simp [Queue.entered]
    · exact ⟨Queue.linear_empty _ _, by simp [Queue.entered]⟩

/-! ### Queue and layers -/

/-- What the layers from some depth on decide. -/
def verdictFrom (t : Table) (limit : UInt64) (b : String) : ℕ → List (List String) → Verdict
  | _, [] => .unrelated
  | d, layer :: rest =>
    if limit.toNat < d then .undecided
    else
      match layer.findSome? fun n => (t.resolve n b).map fun r => (r, n, d) with
      | some (r, n, d) => .via r n d
      | none => verdictFrom t limit b (d + 1) rest

lemma verdictFrom_eq {layers : List (List String)} {d k : ℕ} (hk : d + k = limit.toNat + 1) :
    t.verdictFrom limit b d layers =
      match ((layers.take k).zipIdx d).findSome? fun (layer, depth) =>
        layer.findSome? fun n => (t.resolve n b).map fun r => (r, n, depth) with
      | some (r, n, depth) => .via r n depth
      | none => if k < layers.length then .undecided else .unrelated := by
  induction layers generalizing d k with
  | nil => simp [verdictFrom]
  | cons layer layers ih =>
    rcases k with _ | k
    · simp [verdictFrom, show limit.toNat < d by omega]
    · rw [verdictFrom, if_neg (by omega), List.take_succ_cons, List.zipIdx_cons,
        List.findSome?_cons, ih (by omega : d + 1 + k = limit.toNat + 1)]
      dsimp only
      cases layer.findSome? fun n => (t.resolve n b).map fun r => (r, n, d) with
      | some => rfl
      | none => simp only [List.length_cons, Nat.add_lt_add_iff_right]

lemma search_eq_verdictFrom (hr : t.resolve a b = none) (hab : a ∈ t.ids ∧ b ∈ t.ids) :
    t.search limit a b avoiding = t.verdictFrom limit b 1
      (Walk.layers t.successors (limit.toNat + 1) (a :: b :: avoiding) [a]) := by
  rw [search, hr, verdictFrom_eq (Nat.add_comm 1 _)]
  simp only [hab, and_self, if_true]
  rfl

/-- A search in the middle of a layer, of which `rest` is to come, with `found` of the next layer
found so far. The limit keeps the next layer out, and takes down whether it holds anything. -/
structure Amid (t : Table) (limit : UInt64) (s : Scan) (depth : UInt64)
    (rest found seen : List String) : Prop where
  waiting : s.queue.waiting = rest.map (fun v => (v, depth)) ++
    if depth < limit then found.map fun v => (v, depth + 1) else []
  cut : s.cut = (!decide (depth < limit) && !found.isEmpty)
  seen : ∀ v ∈ t.ids, v ∈ s.queue.seen ↔ depth < limit ∧ v ∈ found ∨ v ∈ seen

/-- The search comes to this verdict. -/
def Yields (t : Table) (limit : UInt64) (b : String)
    (x : Turn Scan (Verdict × Queue (String × UInt64))) (v : Verdict) : Prop :=
  ∃ q, Turn.EndsIn (t.searchTurn limit b) x (v, q)

variable {n : String} {rest found seen layer : List String} {v : Verdict}

lemma Amid.expanded (h : t.WellKept) (hs : t.Amid limit s depth rest found seen) (n : String) :
    t.Amid limit (s.expanded limit depth (Walk.fresh s.queue.seen (t.successors n))) depth rest
      (found ++ Walk.fresh (found ++ seen) (t.successors n)) seen := by
  unfold Scan.expanded
  by_cases hd : depth < limit
  · have hfresh : Walk.fresh s.queue.seen (t.successors n) =
        Walk.fresh (found ++ seen) (t.successors n) := Walk.fresh_congr fun v hv => by
      rw [hs.seen v (h.mem_ids_of_mem_successors n v hv), List.mem_append]
      simp only [hd, true_and]
    have hw := hs.waiting
    rw [if_pos hd] at hw
    rw [if_pos hd, hfresh]
    refine ⟨?_, ?_, fun v hv => ?_⟩
    · rw [Queue.waiting_enterAll, hw, if_pos hd, List.map_append, List.append_assoc]
    · simp [hs.cut, hd]
    · rw [Queue.mem_seen_enterAll, hs.seen v hv, List.mem_append]
      tauto
  · have hw := hs.waiting
    rw [if_neg hd] at hw
    rw [if_neg hd]
    refine ⟨?_, ?_, fun v hv => ?_⟩
    · rw [if_neg hd]
      exact hw
    · -- at the limit nothing more than whether anything was found is taken down
      rcases found with _ | ⟨w, found⟩
      · have hfresh : Walk.fresh s.queue.seen (t.successors n) =
            Walk.fresh seen (t.successors n) := Walk.fresh_congr fun v hv => by
          rw [hs.seen v (h.mem_ids_of_mem_successors n v hv)]
          simp
        simp [hs.cut, hd, hfresh]
      · simp [hs.cut, hd]
    · rw [hs.seen v hv]
      simp only [hd, false_and]

lemma Amid.pop (hs : t.Amid limit s depth (n :: rest) found seen) :
    t.Amid limit { s with queue := s.queue.pop } depth rest found seen := by
  refine ⟨?_, hs.cut, ?_⟩
  · dsimp only
    rw [Queue.pop_of_waiting hs.waiting]
    rfl
  · simpa using hs.seen

/-- The rest of a layer gives the answer, or it leaves the next layer behind. -/
lemma Amid.pass (h : t.WellKept) (hs : t.Amid limit s depth rest found seen)
    (hv : ∀ s', t.Amid limit s' depth []
      (found ++ Walk.fresh (found ++ seen) (rest.flatMap t.successors)) seen →
        t.Yields limit b (.again s') v) :
    t.Yields limit b (.again s)
      (match rest.findSome? fun n => (t.resolve n b).map fun r => (r, n, depth.toNat) with
        | some (r, n, d) => .via r n d
        | none => v) := by
  induction rest generalizing s found with
  | nil => exact hv s (by simpa [Walk.fresh] using hs)
  | cons n rest ih =>
    have hw : s.queue.waiting = (n, depth) :: _ := hs.waiting
    cases hr : t.resolve n b with
    | some r =>
      have hturn : t.searchTurn limit b s = .done (.via r n depth.toNat, s.queue.pop) := by
        simp only [searchTurn, hw, hr]
      simp only [List.findSome?_cons, hr, Option.map_some]
      exact ⟨_, .of_eq hturn (.done _)⟩
    | none =>
      have hturn : t.searchTurn limit b s =
          .again (Scan.expanded { s with queue := s.queue.pop } limit depth
            (Walk.fresh s.queue.pop.seen (t.successors n))) := by
        simp only [searchTurn, hw, hr, expand_eq]
      -- what `n` and the nodes after it find is found by all of them together
      have hfound : found ++ Walk.fresh (found ++ seen) ((n :: rest).flatMap t.successors) =
          found ++ Walk.fresh (found ++ seen) (t.successors n) ++
            Walk.fresh (found ++ Walk.fresh (found ++ seen) (t.successors n) ++ seen)
              (rest.flatMap t.successors) := by
        rw [List.flatMap_cons, Walk.fresh_append, ← List.append_assoc]
        congr 1
        refine Walk.fresh_congr fun x _ => ?_
        simp only [List.mem_append]
        tauto
      rw [hfound] at hv
      obtain ⟨q, hq⟩ := ih (hs.pop.expanded h n) hv
      simp only [List.findSome?_cons, hr, Option.map_none]
      exact ⟨q, .of_eq hturn hq⟩

lemma Amid.yields_of_nil (hs : t.Amid limit s depth [] found seen)
    (hd : depth < limit → found = []) :
    t.Yields limit b (.again s) (if found = [] then .unrelated else .undecided) := by
  have hw : s.queue.waiting = [] := by
    rw [hs.waiting]
    split
    · next h => simp [hd h]
    · rfl
  have hcut : s.cut = true ↔ found ≠ [] := by
    rw [hs.cut]
    by_cases h : depth < limit
    · simp [h, hd h]
    · simp [h]
  have hturn : t.searchTurn limit b s =
      .done (if found = [] then .unrelated else .undecided, s.queue) := by
    simp only [searchTurn, hw]
    by_cases h : found = []
    · rw [if_neg (hcut.not.mpr (not_not.mpr h)), if_pos h]
    · rw [if_pos (hcut.mpr h), if_neg h]
  exact ⟨_, .of_eq hturn (.done _)⟩

lemma Amid.yields (h : t.WellKept) {m : ℕ} (hm : depth.toNat + m = limit.toNat)
    (hs : t.Amid limit s depth [] (Walk.fresh seen (layer.flatMap t.successors)) seen) :
    t.Yields limit b (.again s) (t.verdictFrom limit b (depth.toNat + 1)
      (Walk.layers t.successors (m + 1) seen layer)) := by
  -- on the number of layers that the limit still lets in
  induction m generalizing s depth seen layer with
  | zero =>
    have hd : ¬depth < limit := by
      rw [UInt64.lt_iff_toNat_lt]
      omega
    have hend := hs.yields_of_nil (b := b) fun h => absurd h hd
    rw [Walk.layers_succ]
    split_ifs at hend ⊢
    · exact hend
    · rwa [verdictFrom, if_pos (by omega)]
  | succ m ih =>
    have hd : depth < limit := by
      rw [UInt64.lt_iff_toNat_lt]
      omega
    rw [Walk.layers_succ]
    by_cases hnil : Walk.fresh seen (layer.flatMap t.successors) = []
    · have hend := hs.yields_of_nil (b := b) fun _ => hnil
      rw [if_pos hnil] at hend ⊢
      exact hend
    · -- the same queue, seen as being at the start of the next layer
      have hnext : t.Amid limit s (depth + 1) (Walk.fresh seen (layer.flatMap t.successors)) []
          (Walk.fresh seen (layer.flatMap t.successors) ++ seen) := by
        refine ⟨?_, ?_, fun v hv => ?_⟩
        · simp [hs.waiting, hd]
        · simp [hs.cut, hd]
        · rw [hs.seen v hv, List.mem_append]
          simp [hd]
      rw [if_neg hnil, verdictFrom, if_neg (by omega), ← toNat_succ hd]
      refine hnext.pass h fun s' hs' => ?_
      rw [List.nil_append, List.nil_append] at hs'
      refine ih ?_ hs'
      rw [toNat_succ hd]
      omega

/-- **A search by a queue comes to what the search by layers comes to.** -/
theorem WellKept.yields_search (h : t.WellKept) (limit : UInt64) (a b : String)
    (avoiding : List String) :
    t.Yields limit b (t.searchStart limit a b avoiding) (t.search limit a b avoiding) := by
  unfold searchStart
  cases hr : t.resolve a b with
  | some r =>
    rw [search, hr]
    exact ⟨_, .done _⟩
  | none =>
    dsimp only
    by_cases hab : a ∈ t.ids ∧ b ∈ t.ids
    · have hstart : t.Amid limit { queue := { seen := a :: b :: avoiding.filter (· ∈ t.ids) } } 0
          [] [] (a :: b :: avoiding) := by
        refine ⟨by simp, by simp, fun v hv => ?_⟩
        simp [hv]
      have hfirst := hstart.expanded h a
      rw [List.nil_append, List.nil_append, ← List.flatMap_singleton t.successors a] at hfirst
      rw [if_pos hab, expand_eq, search_eq_verdictFrom hr hab,
        ← List.flatMap_singleton t.successors a]
      exact hfirst.yields h (Nat.zero_add _)
    · rw [if_neg hab, search, hr]
      simp only [hab, if_false]
      exact ⟨_, .done _⟩

end Table

end RuleOrder
