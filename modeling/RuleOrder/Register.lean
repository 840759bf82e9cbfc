/-!
# Registers

A register keeps one value for each id that is entered in it, in the order in which the ids
came. Entering an id again replaces its value and leaves it in its place, so the order is that
of first entry. Nothing is ever taken out.

A register is known by its two views: `get?` reads the value of an id, and `keys` lists the ids.
`get?_insert` and `keys_insert` say what entering a value does to each.
-/

namespace RuleOrder

structure Register (β : Type) where
  entries : List (String × β)
  nodup_keys : (entries.map Prod.fst).Nodup

namespace Register

variable {β : Type}

/-- The entries with the value of `key` replaced, or with `key` added at the end. -/
def overwrite {κ : Type} [DecidableEq κ] (key : κ) (value : β) : List (κ × β) → List (κ × β)
  | [] => [(key, value)]
  | (k, v) :: rest =>
    if k = key then (key, value) :: rest else (k, v) :: overwrite key value rest

theorem map_fst_overwrite (key : String) (value : β) (es : List (String × β)) :
    (overwrite key value es).map Prod.fst =
      if key ∈ es.map Prod.fst then es.map Prod.fst else es.map Prod.fst ++ [key] := by
  induction es with
  | nil => rfl
  | cons e rest ih =>
    by_cases h : e.1 = key
    · simp [overwrite, h]
    · have h' : ¬key = e.1 := fun k => h k.symm
      simp only [overwrite, h, if_false, List.map_cons, ih, List.mem_cons, h', false_or]
      split <;> rfl

theorem lookup_cons_eq_if {κ : Type} [DecidableEq κ] (key : κ) (e : κ × β) (rest : List (κ × β)) :
    (e :: rest).lookup key = if key = e.1 then some e.2 else rest.lookup key := by
  rw [List.lookup_cons]
  split <;> simp_all

theorem lookup_overwrite (key : String) (value : β) (es : List (String × β)) (k : String) :
    (overwrite key value es).lookup k = if k = key then some value else es.lookup k := by
  induction es with
  | nil => simp [overwrite, lookup_cons_eq_if]
  | cons e rest ih =>
    by_cases h : e.1 = key
    · simp only [overwrite, h, if_true, lookup_cons_eq_if]
      split <;> rfl
    · simp only [overwrite, h, if_false, lookup_cons_eq_if, ih]
      grind

/-! ### Views -/

def keys (m : Register β) : List String := m.entries.map Prod.fst

def get? (m : Register β) (key : String) : Option β := m.entries.lookup key

theorem nodup (m : Register β) : m.keys.Nodup := m.nodup_keys

theorem get?_eq_some_iff {m : Register β} {key : String} {value : β} :
    m.get? key = some value ↔ (key, value) ∈ m.entries := by
  obtain ⟨es, h⟩ := m
  simp only [get?]
  induction es with
  | nil => simp
  | cons e rest ih =>
    rw [List.map_cons, List.nodup_cons] at h
    rw [lookup_cons_eq_if, List.mem_cons, ← ih h.2]
    split
    · next hk =>
      have : rest.lookup key ≠ some value := fun hm =>
        h.1 (hk ▸ List.mem_map_of_mem ((ih h.2).1 hm))
      simp only [Prod.ext_iff, hk, true_and, Option.some.injEq, hk ▸ this, or_false]
      exact eq_comm
    · next hk => simp [Prod.ext_iff, hk]

theorem isSome_get?_iff {m : Register β} {key : String} :
    (m.get? key).isSome = true ↔ key ∈ m.keys := by
  rw [Option.isSome_iff_exists]
  simp [get?_eq_some_iff, keys]

theorem get?_eq_none_iff {m : Register β} {key : String} :
    m.get? key = none ↔ key ∉ m.keys := by
  rw [← isSome_get?_iff, Option.not_isSome_iff_eq_none]

/-! ### Entering a value -/

def empty : Register β := ⟨[], List.nodup_nil⟩

instance : EmptyCollection (Register β) := ⟨empty⟩

instance : Inhabited (Register β) := ⟨empty⟩

/-- Enter `value` for `key`, in the place of the value it had. -/
def insert (m : Register β) (key : String) (value : β) : Register β where
  entries := overwrite key value m.entries
  nodup_keys := by
    rw [map_fst_overwrite]
    split
    · exact m.nodup_keys
    · next h => simpa [List.nodup_append] using ⟨m.nodup_keys, fun a b hb c => h (by
        rw [← c]; exact List.mem_map_of_mem hb)⟩

/-- Enter `value` for `key` only if `key` has none. -/
def insertIfNew (m : Register β) (key : String) (value : β) : Register β :=
  if (m.get? key).isSome then m else m.insert key value

@[simp] theorem get?_empty (key : String) : (∅ : Register β).get? key = none := rfl

@[simp] theorem keys_empty : (∅ : Register β).keys = [] := rfl

theorem get?_insert (m : Register β) (key : String) (value : β) (k : String) :
    (m.insert key value).get? k = if k = key then some value else m.get? k :=
  lookup_overwrite key value m.entries k

theorem keys_insert (m : Register β) (key : String) (value : β) :
    (m.insert key value).keys = if key ∈ m.keys then m.keys else m.keys ++ [key] :=
  map_fst_overwrite key value m.entries

theorem get?_insertIfNew (m : Register β) (key : String) (value : β) (k : String) :
    (m.insertIfNew key value).get? k =
      (m.get? k).or (if k = key then some value else none) := by
  unfold insertIfNew
  split
  · next h =>
    by_cases hk : k = key
    · obtain ⟨v, hv⟩ := Option.isSome_iff_exists.1 h
      simp [hk, hv]
    · simp [hk]
  · next h =>
    rw [get?_insert]
    by_cases hk : k = key
    · have : m.get? key = none := by simpa using h
      simp [hk, this]
    · simp [hk]

theorem keys_insertIfNew (m : Register β) (key : String) (value : β) :
    (m.insertIfNew key value).keys = if key ∈ m.keys then m.keys else m.keys ++ [key] := by
  unfold insertIfNew
  split
  · next h => rw [if_pos (isSome_get?_iff.1 h)]
  · exact keys_insert m key value

/-! ### Equality -/

theorem ext_entries {m n : Register β} (h : m.entries = n.entries) : m = n := by
  cases m
  cases n
  simp_all

instance [DecidableEq β] : DecidableEq (Register β) := fun m n =>
  if h : m.entries = n.entries then isTrue (ext_entries h)
  else isFalse fun e => h (congrArg entries e)

instance [Repr β] : Repr (Register β) := ⟨fun m => reprPrec m.entries⟩

end Register

end RuleOrder
