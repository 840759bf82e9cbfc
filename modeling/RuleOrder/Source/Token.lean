import RuleOrder.Source.Address

/-!
# Tokens

A token is a scanned value and the address at which it was found. Tokens are ordered as their
addresses are, and two of one address but different values are in no order.
-/

namespace RuleOrder

structure Token where
  value : String := ""
  address : Address := {}
  deriving DecidableEq, Hashable, Repr

namespace Token

instance : Inhabited Token := ⟨{}⟩

/-- The token of `length` offsets from `start` on, whose address covers its value. -/
def ofLength (value : String) (start length : Offset) : Token :=
  ⟨value, .ofLength start length value⟩

def start (t : Token) : Offset := t.address.start

def stop (t : Token) : Offset := t.address.stop

def length (t : Token) : Offset := t.address.length

def isEmpty (t : Token) : Bool := t.address.isEmpty

/-- The order of the addresses; tokens of one address are comparable only when equal. -/
def compare? (s t : Token) : Option Ordering :=
  match s.address.compare? t.address with
  | some .eq => if s.value = t.value then some .eq else none
  | o => o

instance : LT Token := ⟨fun s t => s.compare? t = some .lt⟩

instance : LE Token := ⟨fun s t => s.compare? t = some .lt ∨ s.compare? t = some .eq⟩

instance (s t : Token) : Decidable (s < t) :=
  inferInstanceAs (Decidable (s.compare? t = some .lt))

instance (s t : Token) : Decidable (s ≤ t) :=
  inferInstanceAs (Decidable (s.compare? t = some .lt ∨ s.compare? t = some .eq))

theorem lt_iff_address_lt {s t : Token} : s < t ↔ s.address < t.address := by
  change s.compare? t = some .lt ↔ s.address.compare? t.address = some .lt
  unfold compare?
  split
  · split <;> simp_all
  · rfl

end Token

end RuleOrder
