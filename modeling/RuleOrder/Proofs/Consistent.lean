import RuleOrder.Proofs.Inheritance

/-!
Facts that are consistent.

Ids that are alike form a class. Facts put one class under another, and they are consistent when
no class comes to stand under itself. Then of any two ids at most one strict relation is borne
out, and none of ids that are alike. So a table that says only what is borne out keeps doing so
while equalities are followed, and nothing in it is ever denied.
-/

namespace RuleOrder.Table

variable {t u : Table} {f : Fact} {fs : List Fact} {a b : String} {r : Relation}

/-! ### Classes -/

/-- The ids that are alike to `a`. -/
def classOf (t : Table) (a : String) : Set String := {b | t.Alike a b}

/-- An id of the class `X` was put before one of the class `Y`, from one of its sides. -/
def Under (t : Table) (X Y : Set String) : Prop :=
  ∃ x y, t.classOf x = X ∧ t.classOf y = Y ∧
    (t.relation x y = some .less ∨ t.relation y x = some .greater)

/-- No class stands under itself, neither at once nor by way of others. -/
def Consistent (t : Table) : Prop := ∀ X, ¬Relation.TransGen t.Under X X

lemma classOf_eq_iff : t.classOf a = t.classOf b ↔ t.Alike a b := by
  constructor
  · intro h
    have hb : b ∈ t.classOf a := h ▸ .refl b
    exact hb
  · intro h
    ext c
    exact ⟨fun hc => (h.symm _ _).trans _ _ _ hc, fun hc => h.trans _ _ _ hc⟩

lemma under_classOf_iff : t.Under (t.classOf a) (t.classOf b) ↔ t.Bears ⟨a, .less, b⟩ := by
  simp only [Under, classOf_eq_iff]
  rfl

namespace Consistent

lemma asymm (h : t.Consistent) (hab : t.Bears ⟨a, .less, b⟩) : ¬t.Bears ⟨b, .less, a⟩ :=
  fun hba => h _ (.tail (.single (under_classOf_iff.mpr hab)) (under_classOf_iff.mpr hba))

lemma not_alike_of_less (h : t.Consistent) (hab : t.Bears ⟨a, .less, b⟩) : ¬t.Alike a b := by
  intro hlike
  have hunder := under_classOf_iff.mpr hab
  rw [classOf_eq_iff.mpr hlike] at hunder
  exact h _ (.single hunder)

lemma not_alike (h : t.Consistent) (hr : r.isStrict = true) (hb : t.Bears ⟨a, r, b⟩) :
    ¬t.Alike a b := by
  cases r with
  | less => exact h.not_alike_of_less hb
  | equal => cases hr
  | greater => exact fun hlike => h.not_alike_of_less hb.converse (hlike.symm _ _)

lemma unique (h : t.Consistent) {s : Relation} (hr : r.isStrict = true)
    (hs : s.isStrict = true) (hb : t.Bears ⟨a, r, b⟩) (hb' : t.Bears ⟨a, s, b⟩) : r = s := by
  cases r with
  | less =>
    cases s with
    | less => rfl
    | equal => cases hs
    | greater => exact absurd hb'.converse (h.asymm hb)
  | equal => cases hr
  | greater =>
    cases s with
    | less => exact absurd hb.converse (h.asymm hb')
    | equal => cases hs
    | greater => rfl

end Consistent

/-- Facts are consistent if the ids can be given heights that they go by. -/
theorem consistent_of_height (height : String → ℕ)
    (hlevel : ∀ p ∈ t.equalities, height p.1 = height p.2)
    (hstrict : ∀ a ∈ t.ids, ∀ e ∈ t.relationsOf a,
      (e.2 = .less → height a < height e.1) ∧ (e.2 = .greater → height e.1 < height a)) :
    t.Consistent := by
  have hless : ∀ a b, t.relation a b = some .less → height a < height b := fun a b hr =>
    (hstrict a (mem_ids_of_relation hr) (b, .less) (relation_eq_some_iff.mp hr)).1 rfl
  have hgreater : ∀ a b, t.relation a b = some .greater → height b < height a := fun a b hr =>
    (hstrict a (mem_ids_of_relation hr) (b, .greater) (relation_eq_some_iff.mp hr)).2 rfl
  have halike : ∀ x y, t.Alike x y → height x = height y := by
    intro x y h
    induction h with
    | rel x y h => exact hlevel (x, y) h
    | refl x => rfl
    | symm x y _ ih => exact ih.symm
    | trans x y z _ _ ih ih' => exact ih.trans ih'
  have hunder : ∀ X Y, Relation.TransGen t.Under X Y →
      ∀ x ∈ X, ∀ y ∈ Y, height x < height y := by
    intro X Y h
    induction h with
    | single h =>
      obtain ⟨a, b, rfl, rfl, hab⟩ := h
      intro x hx y hy
      rw [← halike a x hx, ← halike b y hy]
      exact hab.elim (hless a b) (hgreater b a)
    | tail _ h ih =>
      obtain ⟨a, b, rfl, rfl, hab⟩ := h
      intro x hx y hy
      rw [← halike b y hy]
      exact lt_trans (ih x hx a (.refl a)) (hab.elim (hless a b) (hgreater b a))
  intro X hX
  obtain ⟨-, -, a, b, -, rfl, -⟩ := Relation.TransGen.tail'_iff.mp hX
  exact lt_irrefl _ (hunder _ _ hX b (.refl b) b (.refl b))

/-! ### Saying what is borne out -/

/-- All that `u` says is borne out by `t`. -/
structure Fits (t u : Table) : Prop where
  strict : u.Hereditary t.Bears
  level : ∀ a b, u.relation a b = some .equal → t.Alike a b

lemma WellKept.fits_self (h : t.WellKept) : t.Fits t :=
  ⟨t.hereditary_bears, fun a b hr => .rel _ _ (h.said a b hr)⟩

namespace Fits

lemma write (h : t.Fits u) (hs : f.relation.isStrict = true) (hb : t.Bears f) :
    t.Fits (u.write f) := by
  refine ⟨h.strict.write hs hb, fun a b hr => ?_⟩
  rw [relation_write] at hr
  split_ifs at hr
  · exact absurd (Option.some.inj hr) (Relation.isStrict_iff.mp hs)
  · exact h.level a b hr

lemma derive (h : t.Fits u) : t.Fits u.derive :=
  h.strict.derive_induction h fun _ _ hs hb hv => hv.write hs hb

lemma iterate_derive (h : t.Fits u) (k : ℕ) : t.Fits (Table.derive^[k] u) :=
  Function.Iterate.rec (fun v : Table => t.Fits v) h (fun _ h => h.derive) k

variable (hc : t.Consistent)
include hc

lemma agrees (h : t.Fits u) (hs : f.relation.isStrict = true) (hb : t.Bears f) :
    u.Agrees f := by
  intro kept hk
  by_cases hkept : kept.isStrict = true
  · exact hc.unique hkept hs (h.strict.written _ _ _ hk hkept) hb
  · rw [Relation.isStrict_iff, not_not] at hkept
    exact absurd (h.level _ _ (hkept ▸ hk)) (hc.not_alike hs hb)

/-- **No id leads to itself** by what is borne out. -/
theorem not_leads (h : t.Fits u) (a : String) : ¬u.Leads a a := by
  intro ha
  refine hc (t.classOf a) (Relation.TransGen.lift t.classOf (fun x y hxy => ?_) a a ha)
  exact under_classOf_iff.mpr (h.strict.written x y .less hxy rfl)

lemma writeAll (h : t.Fits u) (hfs : ∀ f ∈ fs, f.relation.isStrict = true ∧ t.Bears f) :
    t.Fits (u.writeAll fs) ∧ u.Grows (u.writeAll fs) := by
  refine writeAll_induction (P := fun v => t.Fits v ∧ u.Grows v) ⟨h, .refl u⟩ ?_
  intro v f hf ⟨hv, hgrows⟩
  obtain ⟨hs, hb⟩ := hfs f hf
  exact ⟨hv.write hs hb, hgrows.trans (grows_write (hv.agrees hc hs hb))⟩

lemma relation_writeAll (h : t.Fits u)
    (hfs : ∀ f ∈ fs, f.relation.isStrict = true ∧ t.Bears f) (hf : f ∈ fs) :
    (u.writeAll fs).relation f.subject f.object = some f.relation := by
  induction fs generalizing u with
  | nil => cases hf
  | cons g gs ih =>
    obtain ⟨hs, hb⟩ := hfs g List.mem_cons_self
    have hgs : ∀ f ∈ gs, f.relation.isStrict = true ∧ t.Bears f := fun f hf =>
      hfs f (List.mem_cons_of_mem g hf)
    rcases List.mem_cons.mp hf with rfl | hf
    · refine ((h.write hs hb).writeAll hc hgs).2.relation ?_
      rw [relation_write, if_pos ⟨rfl, rfl⟩]
    · exact ih (h.write hs hb) hgs hf

/-- **Following equalities denies nothing**: each entry stays in its place and as it was. -/
theorem grows_derive (h : t.Fits u) : u.Grows u.derive :=
  (h.writeAll hc h.strict.forall_mem_derived).2

lemma mem_derivation (h : t.Fits u) {ps : List (String × String)} (hps : ps ⊆ u.equalities)
    (hab : (a, b) ∈ ps) {c : String} (hr : u.relation b c = some r) (hs : r.isStrict = true) :
    ⟨a, r, c⟩ ∈ u.derivation ps := by
  -- what the pairs before this one yield leaves the relation of `b` as it is
  obtain ⟨v, ⟨-, hgrows, -⟩, hsub⟩ := exists_inherited_subset_derivation
    (P := fun v => t.Fits v ∧ u.Grows v ∧ v.equalities = u.equalities) ⟨h, .refl u, rfl⟩ hab
    fun v p hp ⟨hfits, hgrows, hequalities⟩ => by
      have hsides := hfits.strict.forall_mem_sides
        (hfits.strict.forall_mem_inherited (hequalities ▸ hps hp))
      obtain ⟨hfits', hgrows'⟩ := hfits.writeAll hc hsides
      have hsame := equalities_writeAll_of_isStrict (t := v) fun f hf => (hsides f hf).1
      exact ⟨hfits', hgrows.trans hgrows', hsame.trans hequalities⟩
  exact hsub (mem_inherited.mpr ⟨rfl, hs, hgrows.relation hr⟩)

/-- **One pass hands on** every strict relation of an object to its subject, from both sides. -/
theorem relation_derive (h : t.Fits u) (hab : (a, b) ∈ u.equalities) {c : String}
    (hr : u.relation b c = some r) (hs : r.isStrict = true) :
    u.derive.relation a c = some r ∧ u.derive.relation c a = some r.inverse := by
  have hmem := h.mem_derivation hc (List.Subset.refl _) hab hr hs
  have hwritten : ∀ f ∈ Fact.sides ⟨a, r, c⟩,
      u.derive.relation f.subject f.object = some f.relation := fun f hf =>
    h.relation_writeAll hc h.strict.forall_mem_derived (List.mem_flatMap.mpr ⟨_, hmem, hf⟩)
  exact ⟨hwritten _ (Fact.mem_sides.mpr (Or.inl rfl)),
    hwritten _ (Fact.mem_sides.mpr (Or.inr ⟨hs, rfl⟩))⟩

end Fits

end RuleOrder.Table
