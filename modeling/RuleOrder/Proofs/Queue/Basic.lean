import Mathlib.Data.List.Perm.Subperm
import Mathlib.Data.Nat.Notation
import RuleOrder.Walk

/-!
Walks by a queue.

The nodes that a walk is still to come to wait in a queue. Time after time round a loop the
foremost of them is taken out, and new ones come in at the end. That such a loop ends is not
taken for granted: what it ends in is a relation, and a loop that goes on for ever, or that
cannot add one to a depth, ends in nothing.

A queue keeps what was taken out of it, one item for each time round. An id counts as seen from
when it comes in, so none comes in twice, and no loop goes round more often than there are ids.
-/

namespace RuleOrder

/-! ### Loops -/

/-- How one time round a loop comes out. -/
inductive Turn (σ ω : Type) where
  | again (s : σ)
  | done (out : ω)
  /-- A depth was too large to add one to it. -/
  | overflow

namespace Turn

/-- The loop ends, and it ends in `out`. -/
inductive EndsIn {σ ω : Type} (turn : σ → Turn σ ω) : Turn σ ω → ω → Prop
  | done (out : ω) : EndsIn turn (.done out) out
  | again {s : σ} {out : ω} (h : EndsIn turn (turn s) out) : EndsIn turn (.again s) out

variable {σ ω : Type} {turn : σ → Turn σ ω}

lemma EndsIn.of_eq {s : σ} {x : Turn σ ω} {out : ω} (hx : turn s = x) (h : EndsIn turn x out) :
    EndsIn turn (.again s) out :=
  .again (hx ▸ h)

lemma EndsIn.unique {x : Turn σ ω} {out out' : ω} (h : EndsIn turn x out)
    (h' : EndsIn turn x out') : out = out' := by
  induction h with
  | done =>
    cases h'
    rfl
  | again _ ih =>
    cases h' with
    | again h' => exact ih h'

/-- The loop goes on from a state of one kind, or it ends in an outcome of another. -/
def Keeps (P : σ → Prop) (Q : ω → Prop) : Turn σ ω → Prop
  | again s => P s
  | done out => Q out
  | overflow => False

lemma Keeps.imp {P P' : σ → Prop} {Q Q' : ω → Prop} {x : Turn σ ω} (h : x.Keeps P Q)
    (hP : ∀ s, P s → P' s) (hQ : ∀ out, Q out → Q' out) : x.Keeps P' Q' := by
  cases x with
  | again s => exact hP s h
  | done out => exact hQ out h
  | overflow => exact h

/-- **A loop ends** if each time round it keeps to states of one kind and leaves less to do. -/
theorem exists_endsIn {P : σ → Prop} {Q : ω → Prop} {size : σ → ℕ}
    (hturn : ∀ s, P s → (turn s).Keeps (fun s' => P s' ∧ size s' < size s) Q) {x : Turn σ ω}
    (hx : x.Keeps P Q) : ∃ out, EndsIn turn x out ∧ Q out := by
  have hagain : ∀ n s, size s = n → P s → ∃ out, EndsIn turn (.again s) out ∧ Q out := by
    intro n
    induction n using Nat.strongRecOn with
    | ind n ih =>
      intro s hn hs
      have h := hturn s hs
      cases hx : turn s with
      | again s' =>
        rw [hx] at h
        obtain ⟨out, hout, hQ⟩ := ih (size s') (hn ▸ h.2) s' rfl h.1
        exact ⟨out, .of_eq hx hout, hQ⟩
      | done out =>
        rw [hx] at h
        exact ⟨out, .of_eq hx (.done out), h⟩
      | overflow =>
        rw [hx] at h
        exact h.elim
  cases x with
  | again s => exact hagain _ s rfl hx
  | done out => exact ⟨out, .done out, hx⟩
  | overflow => exact hx.elim

end Turn

/-! ### Queues -/

/-- Items that were taken out, one each time round, items that wait, and the ids that are not to
come in. -/
structure Queue (ι : Type) where
  left : List ι := []
  waiting : List ι := []
  seen : List String := []

namespace Queue

variable {ι : Type}

/-- All that ever came in, in turn. -/
def entered (q : Queue ι) : List ι := q.left ++ q.waiting

/-- Take out the foremost item. -/
def pop (q : Queue ι) : Queue ι :=
  match q.waiting with
  | [] => q
  | x :: rest => { q with left := q.left ++ [x], waiting := rest }

/-- Let an item of some id come in, and the id count as seen. -/
def enter (q : Queue ι) (id : String) (item : ι) : Queue ι :=
  { q with waiting := q.waiting ++ [item], seen := id :: q.seen }

def enterAll (q : Queue ι) (item : String → ι) (ids : List String) : Queue ι :=
  ids.foldl (fun q id => q.enter id (item id)) q

variable {q : Queue ι} {item : String → ι}

lemma pop_of_waiting {x : ι} {rest : List ι} (h : q.waiting = x :: rest) :
    q.pop = { q with left := q.left ++ [x], waiting := rest } := by
  rw [pop, h]

@[simp] lemma seen_pop (q : Queue ι) : q.pop.seen = q.seen := by
  unfold pop
  split <;> rfl

@[simp] lemma entered_pop (q : Queue ι) : q.pop.entered = q.entered := by
  unfold pop
  split
  · rfl
  · next h => simp [entered, h]

@[simp] lemma enterAll_nil (q : Queue ι) (item : String → ι) : q.enterAll item [] = q := rfl

@[simp] lemma enterAll_cons (q : Queue ι) (item : String → ι) (id : String) (ids : List String) :
    q.enterAll item (id :: ids) = (q.enter id (item id)).enterAll item ids := rfl

@[simp] lemma left_enterAll (q : Queue ι) (item : String → ι) (ids : List String) :
    (q.enterAll item ids).left = q.left := by
  induction ids generalizing q with
  | nil => rfl
  | cons id ids ih => rw [enterAll_cons, ih, enter]

@[simp] lemma waiting_enterAll (q : Queue ι) (item : String → ι) (ids : List String) :
    (q.enterAll item ids).waiting = q.waiting ++ ids.map item := by
  induction ids generalizing q with
  | nil => simp
  | cons id ids ih =>
    rw [enterAll_cons, ih, enter, List.map_cons, List.append_assoc]
    rfl

lemma entered_enterAll (q : Queue ι) (item : String → ι) (ids : List String) :
    (q.enterAll item ids).entered = q.entered ++ ids.map item := by
  rw [entered, left_enterAll, waiting_enterAll, entered, List.append_assoc]

lemma mem_seen_enterAll {ids : List String} {v : String} :
    v ∈ (q.enterAll item ids).seen ↔ v ∈ ids ∨ v ∈ q.seen := by
  induction ids generalizing q with
  | nil => simp
  | cons id ids ih =>
    rw [enterAll_cons, ih, enter, List.mem_cons, List.mem_cons]
    tauto

/-! ### What a queue keeps to -/

/-- Each id came in at most once, and the loop went round at most `n` times. -/
structure Linear (q : Queue ι) (name : ι → String) (n : ℕ) : Prop where
  once : (q.entered.map name).Nodup
  rounds : q.left.length ≤ n

lemma linear_empty (name : ι → String) (n : ℕ) : ({} : Queue ι).Linear name n :=
  ⟨List.nodup_nil, Nat.zero_le n⟩

/-- No id came in twice, none that is not among `ids` and none that is barred; and what is not
to come in any more is what was barred and what came in. -/
structure Kept (q : Queue ι) (name : ι → String) (ids barred : List String) : Prop where
  once : (q.entered.map name).Nodup
  known : ∀ v ∈ q.entered.map name, v ∈ ids
  clear : ∀ v ∈ q.entered.map name, v ∉ barred
  seen : ∀ v, v ∈ q.seen ↔ v ∈ barred ∨ v ∈ q.entered.map name

namespace Kept

variable {name : ι → String} {ids barred : List String}

lemma pop (h : q.Kept name ids barred) : q.pop.Kept name ids barred := by
  constructor
  · rw [entered_pop]
    exact h.once
  · rw [entered_pop]
    exact h.known
  · rw [entered_pop]
    exact h.clear
  · rw [entered_pop, seen_pop]
    exact h.seen

lemma enterAll (h : q.Kept name ids barred) (hname : ∀ v, name (item v) = v) {vs : List String}
    (hids : ∀ v ∈ vs, v ∈ ids) :
    (q.enterAll item (Walk.fresh q.seen vs)).Kept name ids barred := by
  have hentered : (q.enterAll item (Walk.fresh q.seen vs)).entered.map name =
      q.entered.map name ++ Walk.fresh q.seen vs := by
    rw [entered_enterAll, List.map_append, List.map_map]
    simp [Function.comp_def, hname]
  have hnew : ∀ v ∈ Walk.fresh q.seen vs, v ∉ barred ∧ v ∉ q.entered.map name := fun v hv =>
    not_or.mp fun hor => (Walk.mem_fresh.mp hv).2 ((h.seen v).mpr hor)
  refine ⟨?_, fun v hv => ?_, fun v hv => ?_, fun v => ?_⟩
  · rw [hentered, List.nodup_append]
    refine ⟨h.once, Walk.nodup_fresh _ _, fun u hu v hv huv => (hnew v hv).2 (huv ▸ hu)⟩
  · rw [hentered, List.mem_append] at hv
    exact hv.elim (h.known v) fun hv => hids v (Walk.mem_fresh.mp hv).1
  · rw [hentered, List.mem_append] at hv
    exact hv.elim (h.clear v) fun hv => (hnew v hv).1
  · rw [mem_seen_enterAll, hentered, List.mem_append, h.seen v]
    tauto

lemma length_entered_le (h : q.Kept name ids barred) : q.entered.length ≤ ids.length := by
  have hle := (h.once.subperm h.known).length_le
  rwa [List.length_map] at hle

lemma linear (h : q.Kept name ids barred) : q.Linear name ids.length := by
  have hle := h.length_entered_le
  rw [entered, List.length_append] at hle
  exact ⟨h.once, by omega⟩

lemma sub_length_left_pop_lt (h : q.Kept name ids barred) {x : ι} {rest : List ι}
    (hw : q.waiting = x :: rest) :
    ids.length - q.pop.left.length < ids.length - q.left.length := by
  have hle := h.length_entered_le
  rw [entered, hw, List.length_append, List.length_cons] at hle
  rw [pop_of_waiting hw, List.length_append, List.length_singleton]
  omega

end Kept

end Queue

end RuleOrder
