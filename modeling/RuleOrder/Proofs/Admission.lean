import Mathlib.Data.List.Basic
import RuleOrder.Proofs.Made

/-!
How nodes of distinct ids are taken in.

A list of nodes is either read as a whole, with what was seen so far kept at hand, or its nodes
are added one after the other and each is looked for among those that the graph already has.
What was seen and what the graph has are the same ids at every point of the list, so both ways
refuse the same lists, and for the same node: the first one whose id came before.

A node is looked for before it is added. In place, a refusal leaves the graph as it was, so the
nodes before the first repeated one stay.
-/

namespace RuleOrder

namespace Repeats

variable {α : Type} [DecidableEq α] {seen seen' xs : List α} {x : α}

lemma firstAmong?_congr (h : ∀ x, x ∈ seen ↔ x ∈ seen') :
    firstAmong? seen xs = firstAmong? seen' xs := by
  induction xs generalizing seen seen' with
  | nil => rfl
  | cons y ys ih =>
    have hcons : ∀ x, x ∈ y :: seen ↔ x ∈ y :: seen' := fun x => by
      rw [List.mem_cons, List.mem_cons, h]
    unfold firstAmong?
    rw [ih hcons]
    simp only [h]

lemma firstAmong?_eq_some_iff :
    firstAmong? seen xs = some x ↔ ∃ ys zs, xs = ys ++ x :: zs ∧ (x ∈ ys ∨ x ∈ seen) ∧
      ys.Nodup ∧ ∀ y ∈ ys, y ∉ seen := by
  induction xs generalizing seen with
  | nil => simp [firstAmong?]
  | cons w ws ih =>
    unfold firstAmong?
    by_cases hw : w ∈ seen
    · rw [if_pos hw, Option.some.injEq]
      constructor
      · rintro rfl
        exact ⟨[], ws, rfl, Or.inr hw, List.nodup_nil, by simp⟩
      · rintro ⟨_ | ⟨y, ys⟩, zs, hsplit, -, -, hnew⟩
        · exact (List.cons.inj hsplit).1
        · obtain ⟨rfl, -⟩ := List.cons.inj hsplit
          exact absurd hw (hnew w List.mem_cons_self)
    · rw [if_neg hw, ih]
      constructor
      · rintro ⟨ys, zs, rfl, hx, hys, hnew⟩
        refine ⟨w :: ys, zs, rfl, ?_, List.nodup_cons.mpr ⟨fun hy => ?_, hys⟩, ?_⟩
        · grind
        · exact hnew w hy List.mem_cons_self
        · grind
      · rintro ⟨_ | ⟨y, ys⟩, zs, hsplit, hx, hys, hnew⟩
        · obtain ⟨rfl, -⟩ := List.cons.inj hsplit
          simp [hw] at hx
        · obtain ⟨rfl, rfl⟩ := List.cons.inj hsplit
          obtain ⟨hy, hys⟩ := List.nodup_cons.mp hys
          refine ⟨ys, zs, rfl, ?_, hys, ?_⟩ <;> grind

end Repeats

namespace Graph

variable {ν : Type} [Identified ν]

/-! ### One node after the other -/

lemma call_tryPushNode (g : Graph ν) (node : ν) :
    g.call (.tryPushNode node) = if Identified.id node ∈ g.nodes.map Identified.id
      then .error (.duplicateId (Identified.id node)) else .ok (g.pushNode node) := by
  change g.tryPushNode node = _
  unfold tryPushNode
  simp only [containsId_iff]

lemma granting_tryPushNode (g : Graph ν) (nodes : List ν) :
    g.granting (nodes.map .tryPushNode) =
      match Repeats.firstAmong? (g.nodes.map Identified.id) (nodes.map Identified.id) with
      | some id => .error (.duplicateId id)
      | none => .ok { g with nodes := g.nodes ++ nodes } := by
  induction nodes generalizing g with
  | nil =>
    rw [List.append_nil]
    rfl
  | cons node nodes ih =>
    have hstep : g.granting ((node :: nodes).map .tryPushNode) =
        (g.call (.tryPushNode node) >>= fun g' => g'.granting (nodes.map .tryPushNode)) :=
      List.foldlM_cons ..
    rw [hstep, call_tryPushNode, List.map_cons, Repeats.firstAmong?]
    split_ifs with h
    · rfl
    · -- what the graph has is what was seen, and the node that was added
      have hseen : ∀ id, id ∈ (g.pushNode node).nodes.map Identified.id ↔
          id ∈ Identified.id node :: g.nodes.map Identified.id := by
        intro id
        simp [pushNode, or_comm]
      change (g.pushNode node).granting _ = _
      rw [ih, Repeats.firstAmong?_congr hseen]
      simp [pushNode]

/-! ### The whole list -/

lemma tryOfNodes_eq_ok_iff {nodes : List ν} {g : Graph ν} :
    tryOfNodes nodes = .ok g ↔ (nodes.map Identified.id).Nodup ∧ g = ofNodes nodes := by
  unfold tryOfNodes
  rw [← firstRepeat?_eq_none_iff]
  cases firstRepeat? (nodes.map Identified.id) <;> simp [eq_comm]

lemma tryOfNodes_eq_error_iff {nodes : List ν} {fault : Fault} :
    tryOfNodes nodes = .error fault ↔ ∃ ns node ms, nodes = ns ++ node :: ms ∧
      (ns.map Identified.id).Nodup ∧ Identified.id node ∈ ns.map Identified.id ∧
      fault = .duplicateId (Identified.id node) := by
  have hfault : tryOfNodes nodes = .error fault ↔
      ∃ id, firstRepeat? (nodes.map Identified.id) = some id ∧ fault = .duplicateId id := by
    unfold tryOfNodes
    cases firstRepeat? (nodes.map Identified.id) <;> simp [eq_comm]
  rw [hfault]
  constructor
  · rintro ⟨id, hid, rfl⟩
    obtain ⟨ys, zs, hsplit, hmem, hnodup, -⟩ := Repeats.firstAmong?_eq_some_iff.mp hid
    obtain ⟨ns, rest, rfl, rfl, hrest⟩ := List.map_eq_append_iff.mp hsplit
    obtain ⟨node, ms, rfl, rfl, -⟩ := List.map_eq_cons_iff.mp hrest
    exact ⟨ns, node, ms, rfl, hnodup, hmem.resolve_right List.not_mem_nil, rfl⟩
  · rintro ⟨ns, node, ms, rfl, hnodup, hmem, rfl⟩
    refine ⟨_, Repeats.firstAmong?_eq_some_iff.mpr ⟨ns.map Identified.id, ms.map Identified.id,
      ?_, Or.inl hmem, hnodup, fun _ _ => List.not_mem_nil⟩, rfl⟩
    rw [List.map_append, List.map_cons]

/-! ### In place -/

/-- Steps on a graph that is changed in place; a fault leaves it as the steps before it did. -/
abbrev InPlace (ν : Type) := ExceptT Fault (StateM (Graph ν))

/-- A node added in place, unless one of its id is there. -/
def tryPushNodeInPlace (node : ν) : InPlace ν Unit := do
  if (← get).containsId (Identified.id node) then throw (.duplicateId (Identified.id node))
  modify (pushNode · node)

lemma run_tryPushNodeInPlace (g : Graph ν) (node : ν) :
    (tryPushNodeInPlace node).run.run g =
      match g.call (.tryPushNode node) with
      | .ok g' => (.ok (), g')
      | .error fault => (.error fault, g) := by
  have hcall : g.call (.tryPushNode node) = g.tryPushNode node := rfl
  have hrun : (tryPushNodeInPlace node).run.run g =
      (if g.containsId (Identified.id node) then throw (.duplicateId (Identified.id node))
        else modify (pushNode · node) : InPlace ν Unit).run.run g := rfl
  rw [hcall, hrun, tryPushNode]
  split_ifs <;> rfl

/-- **Nodes are refused alike at once and one by one**, and for the first whose id came before.
Where none is refused, both ways lead to the graph of the nodes in their order. A node that is
refused leaves the graph as it was. -/
theorem tryOfNodes_eq_granting (nodes : List ν) :
    tryOfNodes nodes = (∅ : Graph ν).granting (nodes.map .tryPushNode) ∧
    (∀ g, tryOfNodes nodes = .ok g ↔ (nodes.map Identified.id).Nodup ∧ g = ofNodes nodes) ∧
    (∀ fault, tryOfNodes nodes = .error fault ↔ ∃ ns node ms, nodes = ns ++ node :: ms ∧
      (ns.map Identified.id).Nodup ∧ Identified.id node ∈ ns.map Identified.id ∧
      fault = .duplicateId (Identified.id node)) ∧
    ∀ (g : Graph ν) (node : ν), (tryPushNodeInPlace node).run.run g =
      match g.call (.tryPushNode node) with
      | .ok g' => (.ok (), g')
      | .error fault => (.error fault, g) := by
  refine ⟨?_, fun g => tryOfNodes_eq_ok_iff, fun fault => tryOfNodes_eq_error_iff,
    run_tryPushNodeInPlace⟩
  rw [granting_tryPushNode]
  rfl

end Graph

end RuleOrder
