import Mathlib.Data.List.GetD
import RuleOrder.Proofs.Route

/-!
What the layers of a walk hold.

The layers hold the nodes depth by depth. Within a layer the nodes stand in the order of their
first shortest routes, so the first node of a layer with some property is the one that the
first shortest route to such a node leads to.
-/

namespace RuleOrder.Walk

variable {α : Type}

variable {next : α → List α} {barred : List α} {a : α} {pos : α → α → ℕ}

/-- Every route of `k` steps to `m` has one of `k` steps to `n` before it. -/
def Ahead (next : α → List α) (barred : List α) (a : α) (pos : α → α → ℕ) (k : ℕ) (n m : α) :
    Prop :=
  ∀ q, Route next barred a q m → q.length = k →
    ∃ p, Route next barred a p n ∧ p.length = k ∧
      List.Lex (· < ·) (placing pos a p) (placing pos a q)

/-- The nodes at depth `k`, in the order of their first routes. -/
structure IsLayer (next : α → List α) (barred : List α) (a : α) (pos : α → α → ℕ) (k : ℕ)
    (layer : List α) : Prop where
  mem_iff : ∀ n, n ∈ layer ↔ AtDepth next barred a n k
  ordered : layer.Pairwise (Ahead next barred a pos k)

/-- The nodes that are out of bounds once the layers up to depth `k` are known. -/
def IsSeen (next : α → List α) (barred : List α) (a : α) (k : ℕ) (seen : List α) : Prop :=
  ∀ n, n ∈ seen ↔ n ∈ barred ∨ ∃ j ≤ k, AtDepth next barred a n j

lemma isLayer_zero : IsLayer next barred a pos 0 [a] :=
  ⟨fun n => by rw [atDepth_zero_iff, List.mem_singleton], by simp⟩

lemma isSeen_zero (ha : a ∈ barred) : IsSeen next barred a 0 barred := by
  intro n
  constructor
  · exact Or.inl
  · rintro (h | ⟨j, hj, hd⟩)
    · exact h
    · obtain rfl : j = 0 := by omega
      rw [atDepth_zero_iff.mp hd]
      exact ha

lemma IsSeen.step {k : ℕ} {seen layer : List α} (hs : IsSeen next barred a k seen)
    (hl : IsLayer next barred a pos (k + 1) layer) :
    IsSeen next barred a (k + 1) (layer ++ seen) := by
  intro n
  rw [List.mem_append, hl.mem_iff, hs n]
  constructor
  · rintro (h | h | ⟨j, hj, hd⟩)
    · exact Or.inr ⟨k + 1, le_rfl, h⟩
    · exact Or.inl h
    · exact Or.inr ⟨j, by omega, hd⟩
  · rintro (h | ⟨j, hj, hd⟩)
    · exact Or.inr (Or.inl h)
    · rcases Nat.lt_or_ge k j with hlt | hle
      · exact Or.inl (by rwa [show k + 1 = j by omega])
      · exact Or.inr (Or.inr ⟨j, hle, hd⟩)

lemma AtDepth.exists_le {n : α} {j k : ℕ} (h : AtDepth next barred a n k) (hjk : j ≤ k) :
    ∃ m, AtDepth next barred a m j := by
  induction k generalizing n with
  | zero => exact ⟨n, by rwa [Nat.le_zero.mp hjk]⟩
  | succ k ih =>
    rcases Nat.lt_or_ge k j with hlt | hle
    · exact ⟨n, by rwa [show j = k + 1 by omega]⟩
    · obtain ⟨u, hu, -⟩ := h.exists_pred
      exact ih hu hle

lemma isLayer_nil {j k : ℕ} (h : IsLayer next barred a pos j []) (hjk : j ≤ k) :
    IsLayer next barred a pos k [] := by
  refine ⟨fun n => ⟨fun hn => by simp at hn, fun hn => ?_⟩, List.Pairwise.nil⟩
  obtain ⟨m, hm⟩ := hn.exists_le hjk
  have := (h.mem_iff m).mpr hm
  simp at this

lemma IsLayer.ahead_of_append {k : ℕ} {l r : List α} {n m : α}
    (h : IsLayer next barred a pos k (l ++ n :: r)) (hm : m ∈ r) :
    Ahead next barred a pos k n m :=
  (List.pairwise_cons.mp (List.pairwise_append.mp h.ordered).2.1).1 m hm

lemma IsLayer.ahead_succ (hpos : ∀ u, (next u).Pairwise fun v w => pos u v < pos u w) {k : ℕ}
    {layer : List α} (hl : IsLayer next barred a pos k layer) {x y : α} (hxb : x ∉ barred)
    (hy : AtDepth next barred a y (k + 1))
    (hxy : ∀ l r, layer.flatMap next = l ++ y :: r → x ∈ l) :
    Ahead next barred a pos (k + 1) x y := by
  intro q' hq' hlen
  -- the last step of the route to `y` leaves from a node `m` of the layer
  obtain ⟨q, m, hq, hym, hyb, rfl⟩ := hq'.exists_last (by rintro rfl; simp at hlen)
  have hqlen : q.length = k := by simpa using hlen
  have hm : m ∈ layer := (hl.mem_iff m).mpr (hy.of_step hq hqlen hym hyb)
  obtain ⟨l₁, l₂, hlayer⟩ := List.append_of_mem hm
  obtain ⟨n₁, n₂, hnext⟩ := List.append_of_mem hym
  have hx : x ∈ l₁.flatMap next ++ n₁ :=
    hxy _ (n₂ ++ l₂.flatMap next) (by simp [hlayer, hnext])
  rcases List.mem_append.mp hx with hx | hx
  · -- `x` is found from a node of the layer before `m`
    obtain ⟨m', hm', hxm⟩ := List.mem_flatMap.mp hx
    have hord := hl.ordered
    rw [hlayer, List.pairwise_append] at hord
    obtain ⟨p, hp, hplen, hlt⟩ := hord.2.2 m' hm' m (by simp) q hq hqlen
    refine ⟨p ++ [x], hp.step hxm hxb, by simp [hplen], ?_⟩
    rw [hp.placing_snoc pos, hq.placing_snoc pos]
    exact lex_append (by rw [length_placing, length_placing, hplen, hqlen]) hlt _ _
  · -- `x` is found from `m` itself, at an earlier place
    have hord := hpos m
    rw [hnext, List.pairwise_append] at hord
    refine ⟨q ++ [x], hq.step (by simp [hnext, hx]) hxb, by simp [hqlen], ?_⟩
    rw [hq.placing_snoc pos, hq.placing_snoc pos]
    exact lex_append_left _ (hord.2.2 x hx y (by simp))

/-! ### Fresh items -/

lemma exists_cons_of_ne {x y : α} {l r xs : List α} (h : x :: xs = l ++ y :: r) (hne : y ≠ x) :
    ∃ l', l = x :: l' ∧ xs = l' ++ y :: r := by
  rcases l with _ | ⟨w, l'⟩
  · rw [List.nil_append, List.cons.injEq] at h
    exact absurd h.1.symm hne
  · rw [List.cons_append, List.cons.injEq] at h
    exact ⟨l', by rw [h.1], h.2⟩

variable [DecidableEq α]

lemma fresh_pairwise (seen xs : List α) :
    (fresh seen xs).Pairwise fun x y => ∀ l r, xs = l ++ y :: r → x ∈ l := by
  induction xs generalizing seen with
  | nil => simp [fresh]
  | cons z rest ih =>
    have tail : ∀ seen', (∀ y ∈ fresh seen' rest, y ≠ z) →
        (fresh seen' rest).Pairwise fun x y => ∀ l r, z :: rest = l ++ y :: r → x ∈ l := by
      intro seen' hz
      refine (ih seen').imp_of_mem fun {x y} _ hy hxy l r hlr => ?_
      obtain ⟨l', rfl, hrest⟩ := exists_cons_of_ne hlr (hz y hy)
      exact List.mem_cons_of_mem _ (hxy l' r hrest)
    by_cases hz : z ∈ seen
    · rw [fresh, if_pos hz]
      exact tail seen fun y hy h => (mem_fresh.mp hy).2 (h ▸ hz)
    · rw [fresh, if_neg hz, List.pairwise_cons]
      have hne : ∀ y ∈ fresh (z :: seen) rest, y ≠ z := fun y hy h =>
        (mem_fresh.mp hy).2 (h ▸ List.mem_cons_self)
      refine ⟨fun y hy l r hlr => ?_, tail _ hne⟩
      obtain ⟨l', rfl, -⟩ := exists_cons_of_ne hlr (hne y hy)
      exact List.mem_cons_self

lemma fresh_congr {seen seen' xs : List α} (h : ∀ x ∈ xs, x ∈ seen ↔ x ∈ seen') :
    fresh seen xs = fresh seen' xs := by
  induction xs generalizing seen seen' with
  | nil => rfl
  | cons x rest ih =>
    have hrest : ∀ y ∈ rest, y ∈ seen ↔ y ∈ seen' := fun y hy => h y (List.mem_cons_of_mem x hy)
    have hcons : ∀ y ∈ rest, y ∈ x :: seen ↔ y ∈ x :: seen' := fun y hy => by
      rw [List.mem_cons, List.mem_cons, hrest y hy]
    simp only [fresh, h x List.mem_cons_self, ih hrest, ih hcons]

lemma fresh_append (seen xs ys : List α) :
    fresh seen (xs ++ ys) = fresh seen xs ++ fresh (fresh seen xs ++ seen) ys := by
  induction xs generalizing seen with
  | nil => rfl
  | cons x rest ih =>
    rw [List.cons_append]
    by_cases hx : x ∈ seen
    · rw [fresh, fresh, if_pos hx, if_pos hx, ih]
    · have hseen : ∀ y ∈ ys, y ∈ fresh (x :: seen) rest ++ x :: seen ↔
          y ∈ x :: fresh (x :: seen) rest ++ seen := fun y _ => by
        simp only [List.mem_append, List.mem_cons]
        tauto
      rw [fresh, fresh, if_neg hx, if_neg hx, ih, fresh_congr hseen]
      rfl

lemma layers_succ (next : α → List α) (m : ℕ) (seen layer : List α) :
    layers next (m + 1) seen layer =
      if fresh seen (layer.flatMap next) = [] then []
      else fresh seen (layer.flatMap next) ::
        layers next m (fresh seen (layer.flatMap next) ++ seen)
          (fresh seen (layer.flatMap next)) := by
  rw [layers]
  split
  · next h => simp [h]
  · next x xs h => simp [h]

lemma ne_nil_of_mem_layers {m : ℕ} {seen layer l : List α} (h : l ∈ layers next m seen layer) :
    l ≠ [] := by
  induction m generalizing seen layer with
  | zero => simp [layers] at h
  | succ m ih =>
    rw [layers_succ] at h
    split at h
    · simp at h
    · next hne =>
      rcases List.mem_cons.mp h with rfl | h
      · exact hne
      · exact ih h

lemma forall_mem_fresh {P : α → Prop} (hP : ∀ x, P x → ∀ y ∈ next x, P y) {seen layer : List α}
    (hlayer : ∀ x ∈ layer, P x) : ∀ y ∈ fresh seen (layer.flatMap next), P y := by
  intro y hy
  obtain ⟨x, hx, hxy⟩ := List.mem_flatMap.mp (mem_fresh.mp hy).1
  exact hP x (hlayer x hx) y hxy

lemma forall_mem_layers {P : α → Prop} (hP : ∀ x, P x → ∀ y ∈ next x, P y) {m : ℕ}
    {seen layer : List α} (hlayer : ∀ x ∈ layer, P x) :
    ∀ l ∈ layers next m seen layer, ∀ x ∈ l, P x := by
  induction m generalizing seen layer with
  | zero => simp [layers]
  | succ m ih =>
    intro l hl
    rw [layers_succ] at hl
    split_ifs at hl
    · simp at hl
    · rcases List.mem_cons.mp hl with rfl | hl
      · exact forall_mem_fresh hP hlayer
      · exact ih (forall_mem_fresh hP hlayer) l hl

lemma layers_congr {next' : α → List α} {P : α → Prop} (hP : ∀ x, P x → ∀ y ∈ next x, P y)
    (hnext : ∀ x, P x → next x = next' x) {m : ℕ} {seen layer : List α}
    (hlayer : ∀ x ∈ layer, P x) : layers next m seen layer = layers next' m seen layer := by
  induction m generalizing seen layer with
  | zero => rfl
  | succ m ih =>
    have hsucc : layer.flatMap next = layer.flatMap next' :=
      List.flatMap_congr fun x hx => hnext x (hlayer x hx)
    have hfresh : ∀ y ∈ fresh seen (layer.flatMap next'), P y := by
      rw [← hsucc]
      exact forall_mem_fresh hP hlayer
    rw [layers_succ, layers_succ, hsucc, ih hfresh]

/-! ### The layers of a walk -/

lemma IsLayer.mem_fresh_iff {k : ℕ} {seen layer : List α} (hl : IsLayer next barred a pos k layer)
    (hs : IsSeen next barred a k seen) (n : α) :
    n ∈ fresh seen (layer.flatMap next) ↔ AtDepth next barred a n (k + 1) := by
  rw [mem_fresh, List.mem_flatMap, hs n]
  constructor
  · rintro ⟨⟨u, hu, hn⟩, hseen⟩
    exact ((hl.mem_iff u).mp hu).succ hn (fun hb => hseen (Or.inl hb))
      fun j hj hd => hseen (Or.inr ⟨j, hj, hd⟩)
  · intro hn
    obtain ⟨u, hu, hnu, hb⟩ := hn.exists_pred
    refine ⟨⟨u, (hl.mem_iff u).mpr hu, hnu⟩, ?_⟩
    rintro (h | ⟨j, hj, hd⟩)
    · exact hb h
    · have := hd.unique hn
      omega

/-- What is fresh among the successors of one layer is the next layer. -/
lemma IsLayer.step (hpos : ∀ u, (next u).Pairwise fun v w => pos u v < pos u w) {k : ℕ}
    {seen layer : List α} (hl : IsLayer next barred a pos k layer)
    (hs : IsSeen next barred a k seen) :
    IsLayer next barred a pos (k + 1) (fresh seen (layer.flatMap next)) := by
  refine ⟨hl.mem_fresh_iff hs, (fresh_pairwise seen _).imp_of_mem fun {x y} hx hy hxy => ?_⟩
  have hxb : x ∉ barred := fun hb => (mem_fresh.mp hx).2 ((hs x).mpr (Or.inl hb))
  exact hl.ahead_succ hpos hxb ((hl.mem_fresh_iff hs y).mp hy) hxy

lemma isLayer_layers (hpos : ∀ u, (next u).Pairwise fun v w => pos u v < pos u w) {m k : ℕ}
    {seen layer : List α} (hl : IsLayer next barred a pos k layer)
    (hs : IsSeen next barred a k seen) {i : ℕ} (hi : i < m) :
    IsLayer next barred a pos (k + 1 + i) ((layers next m seen layer).getD i []) := by
  induction m generalizing k seen layer i with
  | zero => omega
  | succ m ih =>
    have hf := hl.step hpos hs
    rw [layers_succ]
    split
    · next hnil =>
      rw [hnil] at hf
      simpa using isLayer_nil hf (by omega : k + 1 ≤ k + 1 + i)
    · cases i with
      | zero => simpa using hf
      | succ i =>
        have := ih hf (hs.step hf) (by omega : i < m)
        rwa [show k + 1 + (i + 1) = k + 1 + 1 + i by omega]

/-- **The layers of a walk hold the nodes by depth**, each layer in the order of the first
shortest routes to its nodes. -/
theorem isLayer_getD_layers (hpos : ∀ u, (next u).Pairwise fun v w => pos u v < pos u w)
    (ha : a ∈ barred) {m i : ℕ} (hi : i < m) :
    IsLayer next barred a pos (i + 1) ((layers next m barred [a]).getD i []) := by
  have h0 : IsLayer next barred a pos 0 [a] := isLayer_zero
  have h := isLayer_layers hpos h0 (isSeen_zero ha) hi
  rwa [show 0 + 1 + i = i + 1 by omega] at h

lemma isLayer_getElem_layers (hpos : ∀ u, (next u).Pairwise fun v w => pos u v < pos u w)
    (ha : a ∈ barred) {m i : ℕ} (hi : i < (layers next m barred [a]).length) :
    IsLayer next barred a pos (i + 1) (layers next m barred [a])[i] := by
  have him : i < m := Nat.lt_of_lt_of_le hi (length_layers_le ..)
  have h := isLayer_getD_layers hpos ha him
  rwa [List.getD_eq_getElem _ _ hi] at h

/-- A walk has as many layers as there are depths, up to the number it was allowed. -/
theorem lt_length_layers_iff (hpos : ∀ u, (next u).Pairwise fun v w => pos u v < pos u w)
    (ha : a ∈ barred) {m i : ℕ} (hi : i < m) :
    i < (layers next m barred [a]).length ↔ ∃ n, AtDepth next barred a n (i + 1) := by
  constructor
  · intro h
    obtain ⟨n, hn⟩ := List.exists_mem_of_ne_nil _ (ne_nil_of_mem_layers (List.getElem_mem h))
    exact ⟨n, ((isLayer_getElem_layers hpos ha h).mem_iff n).mp hn⟩
  · rintro ⟨n, hn⟩
    by_contra hlt
    have hmem := ((isLayer_getD_layers hpos ha hi).mem_iff n).mpr hn
    rw [List.getD_eq_default _ _ (by omega)] at hmem
    simp at hmem

lemma mem_flatten_layers (hpos : ∀ u, (next u).Pairwise fun v w => pos u v < pos u w)
    (ha : a ∈ barred) {m : ℕ} {n : α} :
    n ∈ (layers next m barred [a]).flatten ↔ ∃ i < m, AtDepth next barred a n (i + 1) := by
  rw [List.mem_flatten]
  constructor
  · rintro ⟨l, hl, hn⟩
    obtain ⟨i, hi, rfl⟩ := List.getElem_of_mem hl
    have him : i < m := Nat.lt_of_lt_of_le hi (length_layers_le ..)
    exact ⟨i, him, ((isLayer_getElem_layers hpos ha hi).mem_iff n).mp hn⟩
  · rintro ⟨i, him, hn⟩
    have hi := (lt_length_layers_iff hpos ha him).mpr ⟨n, hn⟩
    exact ⟨_, List.getElem_mem hi, ((isLayer_getElem_layers hpos ha hi).mem_iff n).mpr hn⟩

/-- A walk of as many layers as there are nodes with successors meets all that can be
reached. -/
theorem mem_within_iff (hpos : ∀ u, (next u).Pairwise fun v w => pos u v < pos u w)
    {ids : List α} (hids : ∀ u v, v ∈ next u → u ∈ ids) {n : α} :
    n ∈ within next ids.length a ↔ Relation.ReflTransGen (fun u v => v ∈ next u) a n := by
  rw [within, List.mem_cons, mem_flatten_layers hpos (List.mem_singleton_self a)]
  constructor
  · rintro (rfl | ⟨i, -, hn⟩)
    · exact .refl
    · obtain ⟨p, hp, -⟩ := hn.reached
      exact hp.reflTransGen
  · intro hn
    obtain ⟨p, hp⟩ := exists_route hn
    obtain ⟨k, -, hk⟩ := hp.exists_atDepth
    have hle := hk.le_length hids
    rcases k with _ | i
    · exact Or.inl (atDepth_zero_iff.mp hk)
    · exact Or.inr ⟨i, by omega, hk⟩

end RuleOrder.Walk
