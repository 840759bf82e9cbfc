import Mathlib.Data.List.Basic
import Mathlib.Tactic.FinCases
import RuleOrder.Proofs.Reached
import RuleOrder.Table.Render

/-!
What the text of a table tells.

Where no id holds one of the marks that set things apart in the text, the text can be taken to
pieces again: it falls into lines at the line ends, a line into the id, the weight and the
relations at the brackets, and the relations into peers and symbols at the commas and colons. So
two tables with one text show the same ids in the same order and say the same of each.
-/

namespace RuleOrder

/-- The characters that set things apart in the text of a table. -/
def marks : List Char := ['(', ')', '\x7b', '\x7d', ':', ',', '\n']

/-- The id holds none of the marks. -/
def Plain (id : String) : Prop := ∀ c ∈ marks, c ∉ id.toList

instance : DecidablePred Plain := fun _ => List.decidableBAll _ marks

/-! ### Pieces with something between them -/

section Pieces

variable {α : Type} {c : α} {s x y : List α}

lemma append_cons_inj {r r' : List α} (hx : c ∉ x) (hy : c ∉ y) :
    x ++ c :: r = y ++ c :: r' ↔ x = y ∧ r = r' := by
  refine ⟨fun h => ?_, by rintro ⟨rfl, rfl⟩; rfl⟩
  induction x generalizing y with
  | nil =>
    cases y with
    | nil => exact ⟨rfl, (List.cons.inj h).2⟩
    | cons d y => exact absurd ((List.cons.inj h).1 ▸ List.mem_cons_self) hy
  | cons d x ih =>
    cases y with
    | nil => exact absurd ((List.cons.inj h).1 ▸ List.mem_cons_self) hx
    | cons d' y =>
      obtain ⟨rfl, hrest⟩ := List.cons.inj h
      obtain ⟨rfl, rfl⟩ := ih (fun hc => hx (List.mem_cons_of_mem d hc))
        (fun hc => hy (List.mem_cons_of_mem d hc)) hrest
      exact ⟨rfl, rfl⟩

lemma eq_of_map_eq {β : Type} {f g : α → β} (h : x.map f = y.map g)
    (hinj : ∀ a ∈ x, ∀ b ∈ y, f a = g b → a = b) : x = y := by
  induction x generalizing y with
  | nil => exact (List.map_eq_nil_iff.mp h.symm).symm
  | cons a x ih =>
    obtain ⟨b, y, rfl, hab, hrest⟩ := List.map_eq_cons_iff.mp h.symm
    rw [hinj a List.mem_cons_self b List.mem_cons_self hab.symm,
      ih hrest.symm fun a' ha' b' hb' =>
        hinj a' (List.mem_cons_of_mem a ha') b' (List.mem_cons_of_mem b hb')]

lemma intercalate_eq_nil_iff {xs : List (List α)} (h : ∀ z ∈ xs, z ≠ []) :
    s.intercalate xs = [] ↔ xs = [] := by
  refine ⟨fun hnil => ?_, by rintro rfl; rfl⟩
  rcases xs with _ | ⟨z, _ | ⟨z', xs⟩⟩
  · rfl
  · rw [List.intercalate_singleton] at hnil
    exact absurd hnil (h z List.mem_cons_self)
  · rw [List.intercalate_cons_cons, List.append_eq_nil_iff, List.append_eq_nil_iff] at hnil
    exact absurd hnil.1.1 (h z List.mem_cons_self)

/-- Pieces can be told from what they are put together to, if none is empty or holds the first
item of what stands between them. -/
lemma intercalate_inj {xs ys : List (List α)} (hxs : ∀ z ∈ xs, z ≠ [] ∧ c ∉ z)
    (hys : ∀ z ∈ ys, z ≠ [] ∧ c ∉ z) (h : (c :: s).intercalate xs = (c :: s).intercalate ys) :
    xs = ys := by
  induction xs generalizing ys with
  | nil => exact ((intercalate_eq_nil_iff fun z hz => (hys z hz).1).mp h.symm).symm
  | cons x xs ih =>
    rcases ys with _ | ⟨y, ys⟩
    · exact (intercalate_eq_nil_iff fun z hz => (hxs z hz).1).mp h
    have hcx : c ∉ x := (hxs x List.mem_cons_self).2
    have hcy : c ∉ y := (hys y List.mem_cons_self).2
    rcases xs with _ | ⟨x', xs⟩ <;> rcases ys with _ | ⟨y', ys⟩
    · simpa using h
    -- a piece that is all there is cannot hold what stands between two others
    · rw [List.intercalate_singleton, List.intercalate_cons_cons] at h
      have hc : c ∈ x := by
        rw [h]
        simp
      exact absurd hc hcx
    · rw [List.intercalate_singleton, List.intercalate_cons_cons] at h
      have hc : c ∈ y := by
        rw [← h]
        simp
      exact absurd hc hcy
    · rw [List.intercalate_cons_cons, List.intercalate_cons_cons, List.append_assoc,
        List.append_assoc, List.cons_append, List.cons_append, append_cons_inj hcx hcy,
        List.append_cancel_left_eq] at h
      obtain ⟨rfl, hrest⟩ := h
      rw [ih (fun z hz => hxs z (List.mem_cons_of_mem x hz))
        (fun z hz => hys z (List.mem_cons_of_mem x hz)) hrest]

lemma not_mem_intercalate {d : α} {xs : List (List α)} (hs : d ∉ s) (h : ∀ x ∈ xs, d ∉ x) :
    d ∉ s.intercalate xs := by
  induction xs with
  | nil => simp
  | cons x xs ih =>
    rcases xs with _ | ⟨x', xs⟩
    · simpa using h
    · rw [List.intercalate_cons_cons, List.mem_append, List.mem_append]
      rintro ((hd | hd) | hd)
      · exact h x List.mem_cons_self hd
      · exact hs hd
      · exact ih (fun y hy => h y (List.mem_cons_of_mem x hy)) hd

end Pieces

/-! ### One line -/

namespace Row

variable {row row' : Row} {id id' : String} {e e' : String × Relation} {c : Char}

lemma toList_edgeText (e : String × Relation) :
    (edgeText e).toList = e.1.toList ++ ':' :: ' ' :: e.2.symbol.toList := by
  simp [edgeText]

lemma toList_line (id : String) (row : Row) :
    (row.line id).toList = id.toList ++ '(' :: (row.weightText.toList ++ ')' ::
      (" -> \x7b".toList ++ (String.intercalate ", " (row.ranked.map edgeText)).toList ++
        ['\x7d'])) := by
  simp [line]

lemma symbol_inj {r s : Relation} (h : r.symbol = s.symbol) : r = s := by
  have hread : Relation.ofSymbol? r.symbol = Relation.ofSymbol? s.symbol := congrArg _ h
  rwa [Relation.ofSymbol?_symbol, Relation.ofSymbol?_symbol, Option.some.injEq] at hread

lemma edgeText_inj (he : Plain e.1) (he' : Plain e'.1) (h : edgeText e = edgeText e') :
    e = e' := by
  have hcolon : ':' ∈ marks := by decide
  have htext := congrArg String.toList h
  rw [toList_edgeText, toList_edgeText, append_cons_inj (he _ hcolon) (he' _ hcolon)] at htext
  obtain ⟨hpeer, hsymbol⟩ := htext
  refine Prod.ext (String.toList_inj.mp hpeer) (symbol_inj (String.toList_inj.mp ?_))
  exact (List.cons.inj hsymbol).2

lemma toList_repr (i : ℤ) :
    i.repr.toList =
      if 0 ≤ i then Nat.toDigits 10 i.toNat else '-' :: Nat.toDigits 10 (-i).toNat := by
  rw [Int.repr_eq_if]
  split_ifs
  · exact Nat.toList_repr
  · rw [String.toList_append, Nat.toList_repr]
    rfl

lemma isDigit_of_mem_toDigits {n : ℕ} (h : c ∈ Nat.toDigits 10 n) : c.isDigit = true :=
  Nat.isDigit_of_mem_toDigits (by decide) le_rfl h

lemma isDigit_or_eq_of_mem_weightText (h : c ∈ row.weightText.toList) :
    c.isDigit = true ∨ c = '-' := by
  rw [weightText, toList_repr] at h
  split_ifs at h
  · exact Or.inl (isDigit_of_mem_toDigits h)
  · rcases List.mem_cons.mp h with h | h
    · exact Or.inr h
    · exact Or.inl (isDigit_of_mem_toDigits h)

lemma not_mem_weightText (hc : c ∈ marks) : c ∉ row.weightText.toList := by
  obtain ⟨hdigit, hminus⟩ : c.isDigit = false ∧ c ≠ '-' := by
    fin_cases hc <;> decide
  intro h
  rcases isDigit_or_eq_of_mem_weightText h with hd | heq
  · rw [hdigit] at hd
    cases hd
  · exact hminus heq

lemma weightText_inj (h : row.weightText = row'.weightText) :
    row.weight.getD 0 = row'.weight.getD 0 := by
  have hdigits : ∀ {m n : ℕ}, Nat.toDigits 10 m = Nat.toDigits 10 n → m = n := fun hmn => by
    have hread := congrArg (Nat.ofDigitChars 10 · 0) hmn
    rwa [Nat.ofDigitChars_toDigits (by decide) le_rfl,
      Nat.ofDigitChars_toDigits (by decide) le_rfl] at hread
  have hminus : ∀ n : ℕ, '-' ∉ Nat.toDigits 10 n := fun n hn =>
    absurd (isDigit_of_mem_toDigits hn) (by decide)
  have htext := congrArg String.toList h
  rw [weightText, weightText, toList_repr, toList_repr] at htext
  refine Int64.toInt_inj.mp ?_
  split_ifs at htext
  · have := hdigits htext
    omega
  · exact absurd (htext ▸ List.mem_cons_self) (hminus _)
  · exact absurd (htext ▸ List.mem_cons_self) (hminus _)
  · have := hdigits (List.cons.inj htext).2
    omega

/-- A line of plain ids, and of no others. -/
structure Legible (id : String) (row : Row) : Prop where
  id : Plain id
  peers : ∀ e ∈ row.ranked, Plain e.1

lemma Legible.ne_nil_and_not_mem (hl : row.Legible id) (hc : c ∈ [',', '\n']) :
    ∀ x ∈ (row.ranked.map edgeText).map String.toList, x ≠ [] ∧ c ∉ x := by
  intro x hx
  rw [List.map_map] at hx
  obtain ⟨e, he, rfl⟩ := List.mem_map.mp hx
  have hpeer : c ∉ e.1.toList := hl.peers e he c ((by decide : [',', '\n'] ⊆ marks) hc)
  have hsymbol : c ∉ ':' :: ' ' :: e.2.symbol.toList := by
    fin_cases hc <;> cases e.2 <;> decide
  rw [Function.comp_apply, toList_edgeText, List.mem_append, not_or]
  exact ⟨List.append_ne_nil_of_right_ne_nil _ (List.cons_ne_nil _ _), hpeer, hsymbol⟩

/-- **A line tells what it was written from**: the id, its weight and its relations. -/
theorem line_inj (hl : row.Legible id) (hl' : row'.Legible id') (h : row.line id = row'.line id') :
    id = id' ∧ row.weight.getD 0 = row'.weight.getD 0 ∧ row.ranked = row'.ranked := by
  have hopen : '(' ∈ marks := by decide
  have hclose : ')' ∈ marks := by decide
  have htext := congrArg String.toList h
  rw [toList_line, toList_line, append_cons_inj (hl.id _ hopen) (hl'.id _ hopen),
    append_cons_inj (not_mem_weightText hclose) (not_mem_weightText hclose),
    List.append_cancel_right_eq, List.append_cancel_left_eq, String.toList_intercalate,
    String.toList_intercalate] at htext
  obtain ⟨hids, hweight, hedges⟩ := htext
  have hpieces : (row.ranked.map edgeText).map String.toList =
      (row'.ranked.map edgeText).map String.toList :=
    intercalate_inj (hl.ne_nil_and_not_mem List.mem_cons_self)
      (hl'.ne_nil_and_not_mem List.mem_cons_self) hedges
  have htexts : row.ranked.map edgeText = row'.ranked.map edgeText :=
    List.map_injective_iff.mpr (fun _ _ => String.toList_inj.mp) hpieces
  refine ⟨String.toList_inj.mp hids, weightText_inj (String.toList_inj.mp hweight), ?_⟩
  exact eq_of_map_eq htexts fun e he e' he' => edgeText_inj (hl.peers e he) (hl'.peers e' he')

lemma newline_not_mem_line (hl : row.Legible id) : '\n' ∉ (row.line id).toList := by
  have hmark : '\n' ∈ marks := by decide
  have hedges : '\n' ∉ (String.intercalate ", " (row.ranked.map edgeText)).toList := by
    rw [String.toList_intercalate]
    exact not_mem_intercalate (by decide) fun x hx => (hl.ne_nil_and_not_mem (by simp) x hx).2
  rw [toList_line]
  simp only [List.mem_append, List.mem_cons, not_or]
  exact ⟨hl.id _ hmark, by decide, not_mem_weightText hmark, by decide, ⟨by decide, hedges⟩,
    by decide⟩

lemma toList_line_ne_nil (id : String) (row : Row) : (row.line id).toList ≠ [] := by
  rw [toList_line]
  exact List.append_ne_nil_of_right_ne_nil _ (List.cons_ne_nil _ _)

end Row

/-! ### The whole text -/

namespace Table

variable {t u : Table} {a : String}

/-- The relations of an id to peers that it does not come before, in the order in which they
came. -/
def others (t : Table) (a : String) : List (String × Relation) :=
  (t.relationsOf a).filter fun e => e.2 ≠ .less

/-- The two tables show the same ids in the same order, and the same of each: its weight, none
being read as zero, the peers that it comes before, and its relations to the others. -/
structure ShownAlike (t u : Table) : Prop where
  ids : t.shownIds = u.shownIds
  weight : ∀ a ∈ t.shownIds, (t.weight a).getD 0 = (u.weight a).getD 0
  successors : ∀ a, t.successors a = u.successors a
  others : ∀ a, t.others a = u.others a

lemma render_eq (t : Table) :
    t.render = String.intercalate "\n" (t.shownIds.map fun a => (t.row a).line a) := by
  rw [render, shownRows_eq_map, List.map_map]
  rfl

lemma mem_ranked_row {e : String × Relation} : e ∈ (t.row a).ranked ↔ e ∈ t.relationsOf a := by
  simp only [Row.ranked, List.mem_append, List.mem_filter, relationsOf, decide_eq_true_eq]
  tauto

lemma successors_eq (t : Table) (a : String) :
    t.successors a = ((t.row a).ranked.filter fun e => e.2 = .less).map Prod.fst := by
  have hnone : ((t.row a).edges.entries.filter fun e => e.2 ≠ .less).filter
      (fun e => e.2 = .less) = [] := by
    simp [List.filter_filter]
  rw [Row.ranked, List.filter_append, hnone, List.append_nil, List.filter_filter]
  simp [successors, relationsOf]

lemma others_eq (t : Table) (a : String) :
    t.others a = (t.row a).ranked.filter fun e => e.2 ≠ .less := by
  have hnone : ((t.row a).edges.entries.filter fun e => e.2 = .less).filter
      (fun e => e.2 ≠ .less) = [] := by
    simp [List.filter_filter]
  rw [Row.ranked, List.filter_append, hnone, List.nil_append, List.filter_filter]
  simp [others, relationsOf]

lemma ranked_row (t : Table) (a : String) :
    (t.row a).ranked = (t.successors a).map (fun b => (b, Relation.less)) ++ t.others a := by
  have hless : ((t.relationsOf a).filter fun e => e.2 = .less) =
      (t.successors a).map fun b => (b, Relation.less) := by
    rw [successors, List.map_map]
    refine (List.map_id _).symm.trans (List.map_congr_left fun e he => ?_)
    have hr : e.2 = .less := by simpa using (List.mem_filter.mp he).2
    rw [Function.comp_apply, ← hr]
    rfl
  rw [← hless]
  rfl

lemma ranked_row_eq_iff :
    (t.row a).ranked = (u.row a).ranked ↔
      t.successors a = u.successors a ∧ t.others a = u.others a := by
  constructor
  · intro h
    rw [successors_eq, successors_eq, others_eq, others_eq, h]
    exact ⟨rfl, rfl⟩
  · rintro ⟨hsuccessors, hothers⟩
    rw [ranked_row, ranked_row, hsuccessors, hothers]

lemma ShownAlike.relation (h : t.ShownAlike u) (a b : String) :
    t.relation a b = u.relation a b := by
  have hranked := ranked_row_eq_iff.mpr ⟨h.successors a, h.others a⟩
  refine Option.ext fun r => ?_
  rw [relation_eq_some_iff, relation_eq_some_iff, ← mem_ranked_row, hranked, mem_ranked_row]

lemma ShownAlike.render (h : t.ShownAlike u) : t.render = u.render := by
  rw [render_eq, render_eq, ← h.ids]
  refine congrArg _ (List.map_congr_left fun a ha => ?_)
  have hranked := ranked_row_eq_iff.mpr ⟨h.successors a, h.others a⟩
  have hweight : (t.row a).weight.getD 0 = (u.row a).weight.getD 0 := h.weight a ha
  rw [Row.line, Row.line, Row.weightText, Row.weightText, hweight, hranked]

lemma WellKept.legible (h : t.WellKept) (hplain : ∀ id ∈ t.ids, Plain id) (ha : a ∈ t.shownIds) :
    (t.row a).Legible a := by
  refine ⟨hplain a (List.mem_of_mem_filter ha), fun e he => hplain e.1 ?_⟩
  exact h.known a e.1 e.2 (relation_eq_some_iff.mpr (mem_ranked_row.mp he))

lemma map_line_eq_of_render_eq (ht : ∀ a ∈ t.shownIds, (t.row a).Legible a)
    (hu : ∀ a ∈ u.shownIds, (u.row a).Legible a) (h : t.render = u.render) :
    (t.shownIds.map fun a => (t.row a).line a) = u.shownIds.map fun a => (u.row a).line a := by
  have hpieces : ∀ v : Table, (∀ a ∈ v.shownIds, (v.row a).Legible a) →
      ∀ x ∈ (v.shownIds.map fun a => (v.row a).line a).map String.toList,
        x ≠ [] ∧ '\n' ∉ x := by
    intro v hv x hx
    rw [List.map_map] at hx
    obtain ⟨a, ha, rfl⟩ := List.mem_map.mp hx
    exact ⟨Row.toList_line_ne_nil a _, Row.newline_not_mem_line (hv a ha)⟩
  rw [render_eq, render_eq, ← String.toList_inj, String.toList_intercalate,
    String.toList_intercalate] at h
  exact List.map_injective_iff.mpr (fun _ _ => String.toList_inj.mp)
    (intercalate_inj (hpieces t ht) (hpieces u hu) h)

/-- **The text tells what it was written from.** -/
theorem shownAlike_of_render_eq (ht : ∀ a ∈ t.shownIds, (t.row a).Legible a)
    (hu : ∀ a ∈ u.shownIds, (u.row a).Legible a) (h : t.render = u.render) : t.ShownAlike u := by
  have hlines := map_line_eq_of_render_eq ht hu h
  have hids : t.shownIds = u.shownIds :=
    eq_of_map_eq hlines fun a ha b hb hab => (Row.line_inj (ht a ha) (hu b hb) hab).1
  have hline : ∀ a ∈ t.shownIds, (t.row a).weight.getD 0 = (u.row a).weight.getD 0 ∧
      (t.row a).ranked = (u.row a).ranked := by
    intro a ha
    rw [← hids] at hlines hu
    exact (Row.line_inj (ht a ha) (hu a ha) (List.map_inj_left.mp hlines a ha)).2
  have hranked : ∀ a, (t.row a).ranked = (u.row a).ranked := by
    intro a
    by_cases ha : a ∈ t.shownIds
    · exact (hline a ha).2
    · have hnil : ∀ v : Table, a ∉ v.shownIds → (v.row a).ranked = [] := fun v hv => by
        refine List.eq_nil_iff_forall_not_mem.mpr fun e he => hv (mem_shownIds.mpr ?_)
        exact List.ne_nil_of_mem (mem_ranked_row.mp he)
      rw [hnil t ha, hnil u (hids ▸ ha)]
  exact ⟨hids, fun a ha => (hline a ha).1, fun a => (ranked_row_eq_iff.mp (hranked a)).1,
    fun a => (ranked_row_eq_iff.mp (hranked a)).2⟩

end Table

namespace Graph

variable {ν ν' : Type} [Identified ν] [Identified ν'] {g : Graph ν} {g' : Graph ν'}

/-- **The text is a faithful print of the table**: where no id holds one of the marks, two graphs
have one text just when they show the same ids in the same order and the same of each; and then
every relation of two ids is the same in both. -/
theorem render_eq_iff_shownAlike (hg : g.Reached) (hg' : g'.Reached)
    (hplain : ∀ id ∈ g.table.ids, Plain id) (hplain' : ∀ id ∈ g'.table.ids, Plain id) :
    (g.table.render = g'.table.render ↔ g.table.ShownAlike g'.table) ∧
    (g.table.render = g'.table.render →
      ∀ a b, g.table.relation a b = g'.table.relation a b) := by
  have hshown : g.table.render = g'.table.render → g.table.ShownAlike g'.table :=
    Table.shownAlike_of_render_eq (fun _ => hg.wellKept.legible hplain)
      fun _ => hg'.wellKept.legible hplain'
  exact ⟨⟨hshown, Table.ShownAlike.render⟩, fun h => (hshown h).relation⟩

/-- Facts about three ids, one of them empty, and a weight of an id of which there are none. -/
def printed : Graph String :=
  (ofNodes []).run [.setWeight "" 0, .setWeight "z" 4, .record ⟨"a b", .equal, "c"⟩,
    .record ⟨"a b", .less, ""⟩, .setWeight "a b" (-3)]

/-- The same facts about the three ids, one from its other side and one of them said twice. -/
def reprinted : Graph String :=
  (ofNodes []).run [.record ⟨"", .greater, "a b"⟩, .record ⟨"a b", .equal, "c"⟩,
    .setWeight "a b" (-3), .record ⟨"a b", .equal, "c"⟩]

theorem shownAlike_reprinted :
    (printed.Reached ∧ ∀ id ∈ printed.table.ids, Plain id) ∧
    (reprinted.Reached ∧ ∀ id ∈ reprinted.table.ids, Plain id) ∧
    printed.table.render = "(0) -> \x7ba b: >\x7d\na b(-3) -> \x7b: <, c: =\x7d" ∧
    printed.table ≠ reprinted.table ∧ printed.table.ShownAlike reprinted.table ∧
    ∀ a b, printed.table.relation a b = reprinted.table.relation a b := by
  have hprinted : printed.Reached := ⟨_, .ofNodes _, _, rfl⟩
  have hreprinted : reprinted.Reached := ⟨_, .ofNodes _, _, rfl⟩
  have hplain : ∀ id ∈ printed.table.ids, Plain id := by decide
  have hplain' : ∀ id ∈ reprinted.table.ids, Plain id := by decide
  have hrender : printed.table.render = reprinted.table.render := by decide
  obtain ⟨hshown, hrelation⟩ := render_eq_iff_shownAlike hprinted hreprinted hplain hplain'
  exact ⟨⟨hprinted, hplain⟩, ⟨hreprinted, hplain'⟩, by decide, by decide, hshown.mp hrender,
    hrelation hrender⟩

end Graph

end RuleOrder
