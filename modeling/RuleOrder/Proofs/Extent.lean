import Mathlib.Data.Set.Card
import Mathlib.Order.Interval.Finset.Nat
import RuleOrder.Source.Token

/-!
What an address tells of the offsets that it covers.

An address tells of its bounds in several ways: by the offsets that it contains, by their number,
by whether there are any, and as a span. Each is computed from the bounds in its own manner, the
inverted ones and those at the end of the offsets included, and all of them tell of one set of
offsets. An address that is made from a start and a length covers as many offsets as there are
from its start on, and no more than it was to cover.
-/

namespace RuleOrder

namespace Address

variable {a : Address}

/-- The offsets that an address contains. -/
def covered (a : Address) : Set Offset := {o | a.contains o = true}

lemma mem_covered {o : Offset} : o ∈ a.covered ↔ a.start ≤ o ∧ o < a.stop := contains_iff

lemma toNat_image_covered (a : Address) :
    UInt32.toNat '' a.covered = Finset.Ico a.start.toNat a.stop.toNat := by
  ext n
  rw [Finset.mem_coe, Finset.mem_Ico]
  constructor
  · rintro ⟨o, ho, rfl⟩
    exact mem_covered.mp ho
  · rintro ⟨hstart, hstop⟩
    -- what lies below a bound is itself an offset
    have hn : (UInt32.ofNat n).toNat = n :=
      UInt32.toNat_ofNat_of_lt' (hstop.trans a.stop.toNat_lt)
    refine ⟨UInt32.ofNat n, mem_covered.mpr ⟨?_, ?_⟩, hn⟩
    · rwa [UInt32.le_iff_toNat_le, hn]
    · rwa [UInt32.lt_iff_toNat_lt, hn]

lemma encard_covered (a : Address) : a.covered.encard = a.length.toNat :=
  calc a.covered.encard
      = (UInt32.toNat '' a.covered).encard :=
        (Function.Injective.encard_image (fun _ _ => UInt32.toNat_inj.mp) _).symm
    _ = (Finset.Ico a.start.toNat a.stop.toNat).card := by
        rw [toNat_image_covered, Set.encard_coe_eq_coe_finsetCard]
    _ = a.length.toNat := by rw [Nat.card_Ico, toNat_length]

lemma length_eq_zero_iff : a.length = 0 ↔ a.stop ≤ a.start := by
  rw [← UInt32.toNat_inj, toNat_length, UInt32.le_iff_toNat_le]
  exact Nat.sub_eq_zero_iff_le

lemma covered_eq_empty_iff : a.covered = ∅ ↔ a.length = 0 := by
  rw [← Set.encard_eq_zero, encard_covered, Nat.cast_eq_zero, ← UInt32.toNat_inj]
  rfl

lemma ofBounds_eq_ok_iff {start stop : Offset} {text : String} {b : Address} :
    ofBounds start stop text = .ok b ↔ start ≤ stop ∧ b = ⟨start, stop, text⟩ := by
  unfold ofBounds
  split_ifs with h
  · simp [UInt32.not_le.mpr h]
  · simp [UInt32.not_lt.mp h, eq_comm]

/-- What the views of an address say of its bounds is said of one set of offsets. -/
structure ViewsAgree (a : Address) : Prop where
  encard_covered : a.covered.encard = a.length.toNat
  isEmpty_iff_covered : a.isEmpty = true ↔ ∀ o, a.contains o = false
  isEmpty_iff_length : a.isEmpty = true ↔ a.length = 0
  isSome_span? : a.span?.isSome = true ↔ a.start ≤ a.stop
  accepted : ∀ text, (∃ b, ofBounds a.start a.stop text = .ok b) ↔ a.start ≤ a.stop
  length_span? : ∀ s, a.span? = some s → s.length = a.length

/-- The address covers `length` offsets from `start` on, or as many as there are before the
last one. -/
structure Extends (a : Address) (start length : Offset) : Prop where
  start_le_stop : a.start ≤ a.stop
  contains_iff : ∀ o, a.contains o = true ↔
    start.toNat ≤ o.toNat ∧ o.toNat < min (start.toNat + length.toNat) 4294967295
  toNat_length : a.length.toNat = min length.toNat (4294967295 - start.toNat)

lemma viewsAgree (a : Address) : a.ViewsAgree where
  encard_covered := a.encard_covered
  isEmpty_iff_covered := by
    rw [isEmpty_iff, ← length_eq_zero_iff, ← covered_eq_empty_iff, Set.eq_empty_iff_forall_notMem]
    simp [covered]
  isEmpty_iff_length := by rw [isEmpty_iff, length_eq_zero_iff]
  isSome_span? := span?_isSome_iff
  accepted text := by simp [ofBounds_eq_ok_iff]
  length_span? s h := by
    unfold span? at h
    split_ifs at h
    cases h
    rfl

lemma extends_ofLength (start length : Offset) (text : String) :
    (ofLength start length text).Extends start length := by
  have hstop : (ofLength start length text).stop.toNat =
      min (start.toNat + length.toNat) 4294967295 := Offset.toNat_advance start length
  have hstart : start.toNat < 4294967296 := start.toNat_lt
  refine ⟨?_, fun o => ?_, ?_⟩
  · rw [UInt32.le_iff_toNat_le, hstop]
    exact le_min (Nat.le_add_right _ _) (Nat.le_of_lt_succ hstart)
  · rw [Address.contains_iff, UInt32.le_iff_toNat_le, UInt32.lt_iff_toNat_lt, hstop]
    rfl
  · rw [Address.toNat_length, hstop]
    change min (start.toNat + length.toNat) 4294967295 - start.toNat = _
    omega

end Address

/-- **The views of an address tell of one set of offsets**, whatever its bounds; and an address
or a token that is made from a start and a length covers the offsets from its start on, as many
as it was to cover where there are so many. -/
theorem viewsAgree_and_extends :
    (∀ a : Address, a.ViewsAgree) ∧
    (∀ start length text, (Address.ofLength start length text).Extends start length) ∧
    ∀ value start length, (Token.ofLength value start length).address.Extends start length ∧
      (Token.ofLength value start length).length.toNat =
        min length.toNat (4294967295 - start.toNat) ∧
      ((Token.ofLength value start length).isEmpty = true ↔
        (Token.ofLength value start length).length = 0) := by
  refine ⟨Address.viewsAgree, Address.extends_ofLength, fun value start length => ?_⟩
  have hextends := Address.extends_ofLength start length value
  exact ⟨hextends, hextends.toNat_length, (Address.viewsAgree _).isEmpty_iff_length⟩

end RuleOrder
