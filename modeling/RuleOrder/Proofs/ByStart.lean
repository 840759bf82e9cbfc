import Mathlib.Order.Basic
import RuleOrder.Source.Token

/-!
How addresses and tokens stand to each other.

Both are compared by where they start, and of one start only equal ones are comparable. This is
lawful for any items that have an offset: the strict order tells apart the starts and no more, so
it is a weak one, and the other order adds to it that each item is level with itself. For tokens
the comparison goes by way of their addresses, and comes to the same.
-/

namespace RuleOrder

variable {α : Type}

/-- The laws of a comparison that leaves some items in no order. -/
structure LawfulComparison [LT α] [LE α] (compare? : α → α → Option Ordering) : Prop where
  lt_iff : ∀ a b, a < b ↔ compare? a b = some .lt
  le_iff : ∀ a b, a ≤ b ↔ compare? a b = some .lt ∨ compare? a b = some .eq
  eq_iff : ∀ a b, compare? a b = some .eq ↔ a = b
  swap : ∀ a b, compare? b a = (compare? a b).map Ordering.swap
  lt_irrefl : ∀ a : α, ¬a < a
  lt_trans : ∀ a b c : α, a < b → b < c → a < c
  lt_or_lt : ∀ a b c : α, a < c → a < b ∨ b < c
  le_trans : ∀ a b c : α, a ≤ b → b ≤ c → a ≤ c
  le_antisymm : ∀ a b : α, a ≤ b → b ≤ a → a = b

/-! ### Items with an offset -/

/-- The comparison by an offset; of one offset only equal items are comparable. -/
def compareBy [DecidableEq α] (key : α → Offset) (a b : α) : Option Ordering :=
  match compare (key a) (key b) with
  | .eq => if a = b then some .eq else none
  | o => some o

section CompareBy

variable [DecidableEq α] {key : α → Offset} {a b : α}

lemma compareBy_eq_lt_iff : compareBy key a b = some .lt ↔ key a < key b := by
  rw [← Std.compare_eq_lt, compareBy]
  cases compare (key a) (key b) with
  | lt | gt => simp
  | eq => split_ifs <;> simp

lemma compareBy_eq_eq_iff : compareBy key a b = some .eq ↔ a = b := by
  constructor
  · intro h
    unfold compareBy at h
    split at h
    · split_ifs at h with hab
      exact hab
    · next hne => exact absurd (Option.some.inj h) hne
  · rintro rfl
    rw [compareBy, Std.compare_self, if_pos rfl]

lemma compareBy_swap : compareBy key b a = (compareBy key a b).map Ordering.swap := by
  have hswap : compare (key b) (key a) = (compare (key a) (key b)).swap :=
    Std.OrientedOrd.eq_swap
  rw [compareBy, compareBy, hswap]
  cases compare (key a) (key b) with
  | lt | gt => rfl
  | eq => by_cases hab : a = b <;> simp [hab, eq_comm]

/-- **A comparison by an offset is lawful.** -/
theorem lawfulComparison_of_compareBy [LT α] [LE α] {compare? : α → α → Option Ordering}
    (h : ∀ a b, compare? a b = compareBy key a b) (hlt : ∀ a b, a < b ↔ compare? a b = some .lt)
    (hle : ∀ a b, a ≤ b ↔ compare? a b = some .lt ∨ compare? a b = some .eq) :
    LawfulComparison compare? := by
  -- offsets have no linear order to take the laws from, so they are read as numbers
  have hlt' : ∀ a b, a < b ↔ (key a).toNat < (key b).toNat := fun a b => by
    rw [hlt, h, compareBy_eq_lt_iff, UInt32.lt_iff_toNat_lt]
  have hle' : ∀ a b, a ≤ b ↔ a < b ∨ a = b := fun a b => by
    rw [hle, ← hlt, h, compareBy_eq_eq_iff]
  have htrans : ∀ a b c : α, a < b → b < c → a < c := fun a b c => by
    rw [hlt', hlt', hlt']
    exact Nat.lt_trans
  refine
    { lt_iff := hlt
      le_iff := hle
      eq_iff := fun a b => ?eq_iff
      swap := fun a b => ?swap
      lt_irrefl := fun a => ?lt_irrefl
      lt_trans := htrans
      lt_or_lt := fun a b c => ?lt_or_lt
      le_trans := fun a b c hab hbc => ?le_trans
      le_antisymm := fun a b hab hba => ?le_antisymm }
  case eq_iff => rw [h, compareBy_eq_eq_iff]
  case swap => rw [h, h, compareBy_swap]
  case lt_irrefl =>
    rw [hlt']
    exact Nat.lt_irrefl _
  case lt_or_lt =>
    rw [hlt', hlt', hlt']
    omega
  case le_trans =>
    rw [hle'] at hab hbc ⊢
    rcases hab with hab | rfl
    · rcases hbc with hbc | rfl
      · exact Or.inl (htrans a b c hab hbc)
      · exact Or.inl hab
    · exact hbc
  case le_antisymm =>
    rw [hle', hlt'] at hab hba
    rcases hab with hab | hab
    · rcases hba with hba | hba
      · omega
      · exact hba.symm
    · exact hab

end CompareBy

/-! ### Addresses and tokens -/

lemma Address.compare?_eq_compareBy (a b : Address) :
    a.compare? b = compareBy Address.start a b := rfl

lemma Token.compare?_eq_compareBy (s t : Token) :
    s.compare? t = compareBy Token.start s t := by
  have hiff : s = t ↔ s.address = t.address ∧ s.value = t.value := by
    cases s
    cases t
    simp [and_comm]
  rw [compare?, Address.compare?, compareBy, start, start]
  cases compare s.address.start t.address.start with
  | lt | gt => rfl
  | eq => by_cases ha : s.address = t.address <;> simp [ha, hiff]

/-- **Addresses and tokens are compared lawfully.** A token comes before another just when its
address does, and two tokens of one address are in no order unless their values agree. -/
theorem lawfulComparison_address_token :
    LawfulComparison Address.compare? ∧ LawfulComparison Token.compare? ∧
    (∀ s t : Token, s < t ↔ s.address < t.address) ∧
    ∀ (v w : String) (a : Address),
      Token.compare? ⟨v, a⟩ ⟨w, a⟩ = if v = w then some .eq else none := by
  refine ⟨?_, ?_, fun s t => Token.lt_iff_address_lt, fun v w a => ?_⟩
  · exact lawfulComparison_of_compareBy Address.compare?_eq_compareBy (fun _ _ => Iff.rfl)
      fun _ _ => Iff.rfl
  · exact lawfulComparison_of_compareBy Token.compare?_eq_compareBy (fun _ _ => Iff.rfl)
      fun _ _ => Iff.rfl
  · rw [Token.compare?_eq_compareBy, compareBy, Token.start, Token.start, Std.compare_self]
    simp

end RuleOrder
