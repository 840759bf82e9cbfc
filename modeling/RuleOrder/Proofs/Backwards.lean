import RuleOrder.Proofs.Chain
import RuleOrder.Proofs.Steps

/-!
A chain put in order backwards.

Backwards, an id goes ahead of those that it compares as coming after, and of the ids of a chain
this is only the one right before it. So the nodes come out from the last to the first where the
sort never has to take an id past another that it is more than one step above, and where it does
they stay the way they were. That no id comes out right before the next one of the chain holds
in any case.
-/

namespace RuleOrder

open MergeSort

section Ranks

variable {ν : Type} [Identified ν] {chain : List String}

lemma map_id_eq_reverse_iff (h : chain.Nodup) {xs : List ν}
    (hxs : (xs.map Identified.id).Perm chain) :
    xs.map Identified.id = chain.reverse ↔ Descends (height chain) xs := by
  have hmap : Descends (height chain) xs ↔
      (xs.map Identified.id).Pairwise fun a b => chain.idxOf b < chain.idxOf a := by
    rw [List.pairwise_map]
    rfl
  have hreverse : chain.reverse.Pairwise fun a b => chain.idxOf b < chain.idxOf a :=
    List.pairwise_reverse.mpr (Table.pairwise_idxOf h)
  rw [hmap]
  refine ⟨fun heq => heq ▸ hreverse, fun hdesc => ?_⟩
  refine List.Perm.eq_of_pairwise (fun a b _ _ hba hab => ?_) hdesc hreverse
    (hxs.trans (List.reverse_perm chain).symm)
  omega

lemma stepped_iff (h : chain.Nodup) {ls rs : List ν} (hls : ∀ x ∈ ls, Identified.id x ∈ chain)
    (hrs : ∀ y ∈ rs, Identified.id y ∈ chain) :
    Stepped (height chain) ls rs ↔
      ∀ x ∈ ls, ∀ y ∈ rs, [Identified.id x, Identified.id y].Sublist chain →
        ∃ z ∈ ls, [Identified.id z, Identified.id y] <:+: chain := by
  refine forall₄_congr fun x hx y hy => ?_
  rw [pair_sublist_iff_idxOf h (hls x hx) (hrs y hy)]
  refine imp_congr Iff.rfl (exists_congr fun z => and_congr_right fun hz => ?_)
  rw [pair_infix_iff_idxOf h]
  exact ⟨fun heq => ⟨hls z hz, hrs y hy, heq⟩, fun hzy => hzy.2.2⟩

end Ranks

namespace Graph

variable {ν : Type} [Identified ν]

lemma table_run_record (g : Graph ν) (fs : List Fact) :
    (g.run (fs.map .record)).table = g.table.recordAll fs := by
  induction fs generalizing g with
  | nil => rfl
  | cons f fs ih => exact ih _

lemma goesBefore_true_iff_of_chained {g : Graph ν} {chain : List String}
    (h : g.table.Chained chain) (hchain : chain.Nodup) {x y : ν}
    (hne : Identified.id x ≠ Identified.id y) :
    g.goesBefore true y x = true ↔ [Identified.id x, Identified.id y] <:+: chain := by
  rw [goesBefore_iff]
  exact h.compareAvoiding_eq_greater_iff hchain hne.symm

/-- **A chain comes out backwards** just when, wherever the sort cuts the nodes, each node of the
second part that comes after one of the first comes right after one of the first. And no node
comes out right before the next one of the chain. -/
theorem ordered_true_of_links {chain : List String} (hchain : chain.Nodup) {fs : List Fact}
    (hfs : fs.Perm (links chain)) {g₀ g : Graph ν} (h₀ : g₀.Made)
    (hg : g₀.run (fs.map .record) = g) (hnodes : (g.nodes.map Identified.id).Perm chain) :
    ((g.ordered true).map Identified.id = chain.reverse ↔
      ∀ ls rs, Cut g.nodes ls rs → ∀ x ∈ ls, ∀ y ∈ rs,
        [Identified.id x, Identified.id y].Sublist chain →
          ∃ z ∈ ls, [Identified.id z, Identified.id y] <:+: chain) ∧
    (g.ordered true).IsChain fun x y => ¬[Identified.id x, Identified.id y] <:+: chain := by
  have hchained : g.table.Chained chain := by
    rw [← hg, table_run_record, h₀.table_eq]
    exact Table.chained_recordAll hchain hfs
  have hmem : ∀ x ∈ g.nodes, Identified.id x ∈ chain := fun x hx =>
    hnodes.mem_iff.mp (List.mem_map_of_mem hx)
  have hne : g.nodes.Pairwise fun x y => Identified.id x ≠ Identified.id y :=
    List.pairwise_map.mp (hnodes.nodup_iff.mpr hchain)
  constructor
  · have hsees : g.nodes.Pairwise (SeesStep (g.goesBefore true) (height chain)) := by
      refine hne.imp_of_mem fun {x y} hx hy hxy => ⟨fun heq => ?_, ?_⟩
      · exact hxy ((List.idxOf_inj (hmem y hy)).mp heq).symm
      · rw [goesBefore_true_iff_of_chained hchained hchain hxy, pair_infix_iff_idxOf hchain]
        exact ⟨fun h => h.2.2, fun h => ⟨hmem x hx, hmem y hy, h⟩⟩
    have hperm := ((g.ordered_perm true).map Identified.id).trans hnodes
    rw [map_id_eq_reverse_iff hchain hperm, ordered, descends_mergeSort_iff hsees]
    refine forall₂_congr fun ls rs => forall_congr' fun hcut => ?_
    have hsub := hcut.append_infix.subset
    exact stepped_iff hchain (fun x hx => hmem x (hsub (List.mem_append_left rs hx)))
      fun y hy => hmem y (hsub (List.mem_append_right ls hy))
  · refine isChain_mergeSort (hne.imp fun {x y} hxy => ⟨fun hb hyx => ?_, fun hb hab => ?_⟩)
    · have h₁ := (goesBefore_true_iff_of_chained hchained hchain hxy).mp hb
      have h₂ := ((pair_infix_iff_idxOf hchain).mp h₁).2.2
      have h₃ := ((pair_infix_iff_idxOf hchain).mp hyx).2.2
      omega
    · rw [(goesBefore_true_iff_of_chained hchained hchain hxy).mpr hab] at hb
      cases hb

/-- Where the last id of a chain of three comes first, the chain comes out backwards. -/
theorem ordered_true_of_last_first :
    ["a", "b", "c"].Nodup ∧
    ([⟨"b", .less, "c"⟩, ⟨"a", .less, "b"⟩] : List Fact).Perm (links ["a", "b", "c"]) ∧
    ∃ g, (ofNodes ["c", "a", "b"]).run
        (([⟨"b", .less, "c"⟩, ⟨"a", .less, "b"⟩] : List Fact).map .record) = g ∧
      (g.nodes.map Identified.id).Perm ["a", "b", "c"] ∧
      (g.ordered true).map Identified.id = ["c", "b", "a"] ∧
      (g.ordered true).IsChain fun x y =>
        ¬[Identified.id x, Identified.id y] <:+: ["a", "b", "c"] := by
  have hchain : ["a", "b", "c"].Nodup := by decide
  have hfs : ([⟨"b", .less, "c"⟩, ⟨"a", .less, "b"⟩] : List Fact).Perm
    (links ["a", "b", "c"]) := by decide
  have h := ordered_true_of_links hchain hfs (.ofNodes ["c", "a", "b"]) rfl (by decide)
  refine ⟨hchain, hfs, _, rfl, by decide, h.1.mpr ?_, h.2⟩
  refine (forall_cut_iff (by decide)).mpr ⟨fun ls rs hc => ?_, ?_, by decide⟩
  · exact absurd hc.two_le_length (by decide)
  · refine (forall_cut_iff (by decide)).mpr ⟨fun ls rs hc => ?_, fun ls rs hc => ?_, by decide⟩
    · exact absurd hc.two_le_length (by decide)
    · exact absurd hc.two_le_length (by decide)

def upwards : Graph String := (ofNodes ["a", "b", "c"]).run ((links ["a", "b", "c"]).map .record)

/-- **A chain need not come out backwards**, though nothing else is known and the depth allows
for all of it: as `c` is not known to come after `a`, it is not taken past it. -/
theorem ordered_true_upwards :
    ["a", "b", "c"].Nodup ∧ ["a", "b", "c"].length ≤ upwards.maxDepth.toNat + 2 ∧
    (upwards.nodes.map Identified.id).Perm ["a", "b", "c"] ∧
    upwards.ordered true = ["a", "c", "b"] ∧
    (upwards.ordered true).map Identified.id ≠ ["a", "b", "c"].reverse := by
  have hcb : upwards.goesBefore true "c" "b" = true := by decide
  have hca : upwards.goesBefore true "c" "a" = false := by decide
  have hordered : upwards.ordered true = ["a", "c", "b"] := by
    change mergeSort _ ["a", "b", "c"] = _
    rw [mergeSort_triple, merge_cons_cons, if_pos hcb, merge_nil_right, merge_cons_cons,
      if_neg (by simp [hca]), merge_nil_left]
  refine ⟨by decide, by decide, by decide, hordered, ?_⟩
  rw [hordered]
  decide

end Graph

end RuleOrder
