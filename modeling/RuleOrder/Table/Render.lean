import RuleOrder.Table.Basic

/-!
# The table as text

One line for each id that stands in some relation, in the order in which the ids came: the id,
its weight in brackets (zero when it has none), an arrow, and its relations in braces. The
peers that the id stands before come first; otherwise they keep their order.
-/

namespace RuleOrder

namespace Row

/-- The relations of a row, those of `less` first. -/
def ranked (row : Row) : List (String × Relation) :=
  row.edges.entries.filter (fun e => e.2 = .less) ++
    row.edges.entries.filter fun e => e.2 ≠ .less

def edgeText (e : String × Relation) : String := e.1 ++ ": " ++ e.2.symbol

def weightText (row : Row) : String := (row.weight.getD 0).toInt.repr

def line (id : String) (row : Row) : String :=
  id ++ "(" ++ row.weightText ++ ") -> \x7b" ++ String.intercalate ", " (row.ranked.map edgeText)
    ++ "\x7d"

end Row

namespace Table

/-- The rows that hold some relation, each with its id. -/
def shownRows (t : Table) : List (String × Row) :=
  t.rows.entries.filter fun e => !e.2.edges.entries.isEmpty

def render (t : Table) : String :=
  String.intercalate "\n" (t.shownRows.map fun e => e.2.line e.1)

/-- The ids that stand in some relation, in the order in which they came. -/
def shownIds (t : Table) : List String := t.ids.filter fun a => !(t.relationsOf a).isEmpty

theorem mem_shownIds {t : Table} {a : String} : a ∈ t.shownIds ↔ t.relationsOf a ≠ [] := by
  rw [shownIds, List.mem_filter, Bool.not_eq_true', List.isEmpty_eq_false_iff,
    and_iff_right_iff_imp]
  exact mem_ids_of_relationsOf_ne_nil

theorem shownRows_eq_map (t : Table) : t.shownRows = t.shownIds.map fun a => (a, t.row a) := by
  have hrow : ∀ e ∈ t.rows.entries, t.row e.1 = e.2 := fun e he => by
    rw [row, Register.get?_eq_some_iff.2 he, Option.getD_some]
  have hshown : t.shownRows = t.rows.entries.filter fun e => !(t.relationsOf e.1).isEmpty :=
    List.filter_congr fun e he => by rw [relationsOf, hrow e he]
  rw [shownIds, ids, Register.keys, List.filter_map, List.map_map, hshown]
  refine (List.map_id _).symm.trans (List.map_congr_left fun e he => ?_)
  rw [Function.comp_apply, hrow e (List.mem_filter.1 he).1]
  rfl

end Table

end RuleOrder
