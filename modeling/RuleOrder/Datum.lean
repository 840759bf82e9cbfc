/-!
# Data

Values in a form that any store or wire can carry: nothing, truth values, numbers, texts, lists
and records. A structured value is written as a record with a field for each of its parts, and
can also be read from the bare list of the parts in their order. A choice is written as the
name of the variant, and can also be read from a record whose one field is that name, with
nothing in it.
-/

namespace RuleOrder

inductive Datum where
  | null
  | bool (b : Bool)
  | int (n : Int)
  /-- A number written with a fraction: `digits / 10 ^ places`. -/
  | decimal (digits : Int) (places : Nat)
  | text (s : String)
  | list (items : List Datum)
  | record (fields : List (String × Datum))
  deriving Repr, Inhabited

namespace Datum

/-- The one field of a name, if there is exactly one. -/
def sole? (name : String) (fields : List (String × Datum)) : Option Datum :=
  match fields.filter fun f => f.1 = name with
  | [f] => some f.2
  | _ => none

/-- The parts of a structured value with the given field names. A record may hold further
fields and may hold them in any order; a list holds the parts and nothing else. -/
def parts? (names : List String) : Datum → Option (List Datum)
  | record fields => names.mapM fun name => sole? name fields
  | list items => if items.length = names.length then some items else none
  | _ => none

/-- The name of the variant that a choice is. -/
def variant? : Datum → Option String
  | text name => some name
  | record [(name, null)] => some name
  | _ => none

def text? : Datum → Option String
  | text s => some s
  | _ => none

@[simp] theorem variant?_text (name : String) : (text name).variant? = some name := rfl

@[simp] theorem text?_text (s : String) : (text s).text? = some s := rfl

theorem sole?_eq_some_iff {name : String} {fields : List (String × Datum)} {d : Datum} :
    sole? name fields = some d ↔ fields.filter (fun f => f.1 = name) = [(name, d)] := by
  unfold sole?
  split
  · next f h =>
    have : f.1 = name := by
      have hm : f ∈ fields.filter fun f => f.1 = name := by simp [h]
      simpa using (List.mem_filter.1 hm).2
    simp [h, Prod.ext_iff, this]
  · next h =>
    simp only [reduceCtorEq, false_iff]
    exact fun c => h _ c

theorem parts?_list {names : List String} {items : List Datum} :
    (list items).parts? names = if items.length = names.length then some items else none :=
  rfl

end Datum

end RuleOrder
