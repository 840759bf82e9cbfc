import RuleOrder.Fault

/-!
# Addresses

An address is a half-open interval of offsets into a source text, together with the piece of
text it covers. The piece is given by whoever makes the address and never read back from the
source. An address may be *inverted*, its stop before its start; it then covers no offset.

Two addresses are equal when bounds and text agree, but they are ordered by their starts
alone, so addresses that share a start and differ otherwise are in no order at all.
-/

namespace RuleOrder

/-- A position in a source text, in bytes from its beginning. -/
abbrev Offset := UInt32

namespace Offset

/-- The greatest offset there is. -/
def last : Offset := 0xffffffff

/-- The offset `n` further on, or the last one when there is none so far. -/
def advance (o n : Offset) : Offset := UInt32.ofNat (min (o.toNat + n.toNat) last.toNat)

/-- The number of offsets from `a` up to `b`, none when `b` lies before `a`. -/
def distance (a b : Offset) : Offset := UInt32.ofNat (b.toNat - a.toNat)

@[simp] theorem toNat_last : last.toNat = 4294967295 := rfl

theorem toNat_advance (o n : Offset) :
    (o.advance n).toNat = min (o.toNat + n.toNat) last.toNat := by
  rw [advance, toNat_last, UInt32.toNat_ofNat']
  omega

theorem toNat_distance (a b : Offset) : (distance a b).toNat = b.toNat - a.toNat := by
  have := b.toNat_lt
  rw [distance, UInt32.toNat_ofNat']
  omega

end Offset

/-- An interval of offsets that is not inverted. -/
structure Span where
  start : Offset
  stop : Offset
  start_le_stop : start ≤ stop
  deriving DecidableEq, Repr

def Span.length (s : Span) : Offset := Offset.distance s.start s.stop

structure Address where
  start : Offset := 0
  stop : Offset := 0
  text : String := ""
  deriving DecidableEq, Hashable, Repr

namespace Address

instance : Inhabited Address := ⟨{}⟩

/-- The address of `length` offsets from `start` on, as far as there are offsets. -/
def ofLength (start length : Offset) (text : String) : Address :=
  ⟨start, start.advance length, text⟩

/-- The address between two bounds, refused when it would be inverted. -/
def ofBounds (start stop : Offset) (text : String) : Except Fault Address :=
  if stop < start then .error (.invertedRange start stop) else .ok ⟨start, stop, text⟩

/-- The number of offsets covered. -/
def length (a : Address) : Offset := Offset.distance a.start a.stop

def isEmpty (a : Address) : Bool := a.stop ≤ a.start

def contains (a : Address) (o : Offset) : Bool := a.start ≤ o && o < a.stop

/-- The bounds, when they are not inverted. -/
def span? (a : Address) : Option Span :=
  if h : a.start ≤ a.stop then some ⟨a.start, a.stop, h⟩ else none

/-- The order by start; among addresses of one start only equal ones are comparable. -/
def compare? (a b : Address) : Option Ordering :=
  match compare a.start b.start with
  | .eq => if a = b then some .eq else none
  | o => some o

instance : LT Address := ⟨fun a b => a.compare? b = some .lt⟩

instance : LE Address := ⟨fun a b => a.compare? b = some .lt ∨ a.compare? b = some .eq⟩

instance (a b : Address) : Decidable (a < b) :=
  inferInstanceAs (Decidable (a.compare? b = some .lt))

instance (a b : Address) : Decidable (a ≤ b) :=
  inferInstanceAs (Decidable (a.compare? b = some .lt ∨ a.compare? b = some .eq))

/-! ### What the views say of the bounds -/

theorem toNat_length (a : Address) : a.length.toNat = a.stop.toNat - a.start.toNat :=
  Offset.toNat_distance a.start a.stop

theorem isEmpty_iff {a : Address} : a.isEmpty = true ↔ a.stop ≤ a.start := by
  simp [isEmpty]

theorem contains_iff {a : Address} {o : Offset} :
    a.contains o = true ↔ a.start ≤ o ∧ o < a.stop := by
  simp [contains]

theorem span?_isSome_iff {a : Address} : a.span?.isSome = true ↔ a.start ≤ a.stop := by
  unfold span?
  split <;> simp_all

theorem lt_iff_start_lt {a b : Address} : a < b ↔ a.start < b.start := by
  change a.compare? b = some .lt ↔ _
  rw [compare?, ← Std.compare_eq_lt]
  split
  · split <;> simp_all
  · simp

end Address

end RuleOrder
