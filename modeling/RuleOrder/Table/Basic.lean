import RuleOrder.Fact
import RuleOrder.Register

/-!
# The table of facts

A table keeps what has been said of ids. Each id that was ever named has a row: its weight, if
it has one, and the relations in which it stands to its peers, in the order in which the peers
came. Beside the rows stands every equality that was ever said, in order and repeats included,
since equalities are followed only when asked for (`RuleOrder.Table.derive`).

Facts come in one at a time. A strict fact is written from both of its sides. A level fact is
written from its subject only, and a subject without a weight takes that of the object. What
is said again replaces what was there. Nothing is checked here and nothing is ever removed.

The views of a table are `ids`, `weight`, `relation`, `relationsOf` and `equalities`; a lemma
for each says what each way of changing the table does to it.
-/

namespace RuleOrder

/-- What is known of one id. -/
structure Row where
  weight : Option Int64 := none
  edges : Register Relation := ∅
  deriving DecidableEq, Repr, Inhabited

/-- Enter a relation to `peer`; a level one brings along the weight of the peer. -/
def Row.enter (row : Row) (peer : String) (r : Relation) (peerWeight : Option Int64) : Row where
  weight := if r = .equal then row.weight.or peerWeight else row.weight
  edges := row.edges.insert peer r

structure Table where
  rows : Register Row := ∅
  equalities : List (String × String) := []
  deriving DecidableEq, Repr, Inhabited

namespace Table

instance : EmptyCollection Table := ⟨{}⟩

/-! ### Views -/

/-- The ids that were ever named, in the order in which they came. -/
def ids (t : Table) : List String := t.rows.keys

def row (t : Table) (id : String) : Row := (t.rows.get? id).getD {}

def weight (t : Table) (id : String) : Option Int64 := (t.row id).weight

/-- The relation in which `a` stands to `b` by what was written for `a`. -/
def relation (t : Table) (a b : String) : Option Relation := (t.row a).edges.get? b

/-- The peers of an id and its relations to them, in the order in which they came. -/
def relationsOf (t : Table) (id : String) : List (String × Relation) := (t.row id).edges.entries

theorem nodup_ids (t : Table) : t.ids.Nodup := t.rows.nodup

theorem row_eq_of_not_mem {t : Table} {id : String} (h : id ∉ t.ids) : t.row id = {} := by
  rw [row, Register.get?_eq_none_iff.2 h]
  rfl

theorem relation_eq_some_iff {t : Table} {a b : String} {r : Relation} :
    t.relation a b = some r ↔ (b, r) ∈ t.relationsOf a :=
  Register.get?_eq_some_iff

theorem mem_ids_of_relation {t : Table} {a b : String} {r : Relation}
    (h : t.relation a b = some r) : a ∈ t.ids := by
  refine Classical.byContradiction fun hn => ?_
  simp [relation, row_eq_of_not_mem hn] at h

theorem mem_ids_of_relationsOf_ne_nil {t : Table} {a : String} (h : t.relationsOf a ≠ []) :
    a ∈ t.ids := by
  obtain ⟨e, he⟩ := List.exists_mem_of_ne_nil _ h
  exact mem_ids_of_relation (relation_eq_some_iff.2 he)

/-! ### Changes -/

/-- Give an id a row of its own, if it has none. -/
def intern (t : Table) (id : String) : Table := { t with rows := t.rows.insertIfNew id {} }

/-- Write one side of a fact. -/
def write (t : Table) (f : Fact) : Table where
  rows := t.rows.insert f.subject
    ((t.row f.subject).enter f.object f.relation (t.weight f.object))
  equalities :=
    if f.relation = .equal then t.equalities ++ [(f.subject, f.object)] else t.equalities

def writeAll (t : Table) (fs : List Fact) : Table := fs.foldl write t

/-- Name the ids of a fact, its subject first. -/
def introduce (t : Table) (f : Fact) : Table := (t.intern f.subject).intern f.object

/-- Take in a fact. -/
def record (t : Table) (f : Fact) : Table := (t.introduce f).writeAll f.sides

/-- Give an id a weight, in place of the one it had. -/
def setWeight (t : Table) (id : String) (w : Int64) : Table :=
  { t with rows := t.rows.insert id { t.row id with weight := some w } }

/-! ### What a new row changes -/

@[simp] theorem row_intern (t : Table) (id a : String) : (t.intern id).row a = t.row a := by
  simp only [row, intern, Register.get?_insertIfNew]
  cases t.rows.get? a <;> simp
  split <;> rfl

@[simp] theorem weight_intern (t : Table) (id a : String) :
    (t.intern id).weight a = t.weight a := by
  simp [weight]

@[simp] theorem relation_intern (t : Table) (id a b : String) :
    (t.intern id).relation a b = t.relation a b := by
  simp [relation]

@[simp] theorem relationsOf_intern (t : Table) (id a : String) :
    (t.intern id).relationsOf a = t.relationsOf a := by
  simp [relationsOf]

@[simp] theorem equalities_intern (t : Table) (id : String) :
    (t.intern id).equalities = t.equalities := rfl

theorem ids_intern (t : Table) (id : String) :
    (t.intern id).ids = if id ∈ t.ids then t.ids else t.ids ++ [id] :=
  Register.keys_insertIfNew t.rows id {}

theorem mem_ids_intern {t : Table} {id a : String} :
    a ∈ (t.intern id).ids ↔ a = id ∨ a ∈ t.ids := by
  rw [ids_intern]
  split <;> grind

/-! ### What a written side changes -/

theorem row_write (t : Table) (f : Fact) (a : String) :
    (t.write f).row a =
      if a = f.subject then (t.row f.subject).enter f.object f.relation (t.weight f.object)
      else t.row a := by
  simp only [row, write, Register.get?_insert]
  split <;> rfl

theorem relation_write (t : Table) (f : Fact) (a b : String) :
    (t.write f).relation a b =
      if a = f.subject ∧ b = f.object then some f.relation else t.relation a b := by
  simp only [relation, row_write]
  by_cases ha : a = f.subject
  · simp [ha, Row.enter, Register.get?_insert]
  · simp [ha]

theorem weight_write (t : Table) (f : Fact) (a : String) :
    (t.write f).weight a =
      if a = f.subject ∧ f.relation = .equal then (t.weight a).or (t.weight f.object)
      else t.weight a := by
  simp only [weight, row_write]
  by_cases ha : a = f.subject
  · by_cases hr : f.relation = .equal <;> simp [ha, hr, Row.enter]
  · simp [ha]

theorem equalities_write (t : Table) (f : Fact) :
    (t.write f).equalities =
      if f.relation = .equal then t.equalities ++ [(f.subject, f.object)] else t.equalities :=
  rfl

theorem ids_write (t : Table) (f : Fact) :
    (t.write f).ids = if f.subject ∈ t.ids then t.ids else t.ids ++ [f.subject] :=
  Register.keys_insert t.rows f.subject _

theorem weight_write_of_isStrict {t : Table} {f : Fact} (h : f.relation.isStrict = true)
    (a : String) : (t.write f).weight a = t.weight a := by
  rw [weight_write, if_neg fun ha => Relation.isStrict_iff.1 h ha.2]

theorem equalities_write_of_isStrict {t : Table} {f : Fact} (h : f.relation.isStrict = true) :
    (t.write f).equalities = t.equalities := by
  rw [equalities_write, if_neg (Relation.isStrict_iff.1 h)]

theorem ids_write_of_mem {t : Table} {f : Fact} (h : f.subject ∈ t.ids) :
    (t.write f).ids = t.ids := by
  rw [ids_write, if_pos h]

@[simp] theorem writeAll_nil (t : Table) : t.writeAll [] = t := rfl

@[simp] theorem writeAll_cons (t : Table) (f : Fact) (fs : List Fact) :
    t.writeAll (f :: fs) = (t.write f).writeAll fs := rfl

theorem writeAll_append (t : Table) (fs gs : List Fact) :
    t.writeAll (fs ++ gs) = (t.writeAll fs).writeAll gs :=
  List.foldl_append

/-! ### What a weight changes -/

theorem weight_setWeight (t : Table) (id : String) (w : Int64) (a : String) :
    (t.setWeight id w).weight a = if a = id then some w else t.weight a := by
  simp only [weight, row, setWeight, Register.get?_insert]
  split <;> rfl

@[simp] theorem relation_setWeight (t : Table) (id : String) (w : Int64) (a b : String) :
    (t.setWeight id w).relation a b = t.relation a b := by
  simp only [relation, row, setWeight, Register.get?_insert]
  by_cases h : a = id <;> simp [h]

@[simp] theorem relationsOf_setWeight (t : Table) (id : String) (w : Int64) (a : String) :
    (t.setWeight id w).relationsOf a = t.relationsOf a := by
  simp only [relationsOf, row, setWeight, Register.get?_insert]
  by_cases h : a = id <;> simp [h]

@[simp] theorem equalities_setWeight (t : Table) (id : String) (w : Int64) :
    (t.setWeight id w).equalities = t.equalities := rfl

theorem ids_setWeight (t : Table) (id : String) (w : Int64) :
    (t.setWeight id w).ids = if id ∈ t.ids then t.ids else t.ids ++ [id] :=
  Register.keys_insert t.rows id _

end Table

end RuleOrder
