import Mathlib.Data.List.Induction
import RuleOrder.Proofs.Made
import RuleOrder.Proofs.Record

/-!
A table as an account of what was said.

Calls that check nothing say facts and weights, and the table can be read off what they said.
How two ids stand to each other is what was said of them last. The peers of an id, and the ids
themselves, stand in the order in which they were first named, whatever was said of them later.
A weight that was set counts before one that was inherited, and of those that could be
inherited the first one does.
-/

namespace RuleOrder

namespace Fact

/-- How `a` stands to `b` by the fact. The converse of a strict fact is written last, so of an
id against itself it tells the converse. -/
def tells? (f : Fact) (a b : String) : Option Relation :=
  if f.relation.isStrict = true ∧ a = f.object ∧ b = f.subject then some f.relation.inverse
  else if a = f.subject ∧ b = f.object then some f.relation
  else none

end Fact

/-- What a call says that checks nothing. -/
inductive Saying where
  | fact (fact : Fact)
  | weight (id : String) (weight : Int64)
  deriving DecidableEq, Repr

namespace Saying

/-- The ids that are named, the subject of a fact before its object. -/
def mentions : Saying → List String
  | fact f => [f.subject, f.object]
  | weight id _ => [id]

/-- How `a` stands to `b` by what is said. -/
def tells? : Saying → String → String → Option Relation
  | fact f, a, b => f.tells? a b
  | weight .., _, _ => none

/-- The peers to which a relation of `a` is written. -/
def peersOf : Saying → String → List String
  | fact f, a => (f.sides.filter fun side => side.subject = a).map Fact.object
  | weight .., _ => []

def equality? : Saying → Option (String × String)
  | fact f => if f.relation = .equal then some (f.subject, f.object) else none
  | weight .. => none

/-- The id that `a` is said to be level with. -/
def level? : Saying → String → Option String
  | fact f, a => if a = f.subject ∧ f.relation = .equal then some f.object else none
  | weight .., _ => none

/-- The weight that `a` is given. -/
def weight? : Saying → String → Option Int64
  | fact _, _ => none
  | weight id w, a => if a = id then some w else none

end Saying

lemma eraseDups_concat (xs : List String) (x : String) :
    (xs ++ [x]).eraseDups = if x ∈ xs then xs.eraseDups else xs.eraseDups ++ [x] := by
  rw [List.eraseDups_append]
  split_ifs with h <;> simp [List.removeAll, h, List.eraseDups_cons]

namespace Table

variable {t : Table}

/-- The peers of an id, in the order in which they came. -/
def peers (t : Table) (a : String) : List String := (t.relationsOf a).map Prod.fst

/-- Take in what is said. -/
def take (t : Table) : Saying → Table
  | .fact f => t.record f
  | .weight id w => t.setWeight id w

def takeAll (t : Table) (log : List Saying) : Table := log.foldl take t

/-- The weight that `a` inherits, unless it has one, from the first of the ids that it is said
to be level with that has a weight by then. -/
def inheritedWeight (t : Table) (a : String) : List Saying → Option Int64
  | [] => none
  | s :: log => ((s.level? a).bind t.weight).or ((t.take s).inheritedWeight a log)

lemma takeAll_concat (t : Table) (log : List Saying) (s : Saying) :
    t.takeAll (log ++ [s]) = (t.takeAll log).take s :=
  List.foldl_append

lemma inheritedWeight_concat (t : Table) (a : String) (log : List Saying) (s : Saying) :
    t.inheritedWeight a (log ++ [s]) =
      (t.inheritedWeight a log).or ((s.level? a).bind (t.takeAll log).weight) := by
  induction log generalizing t with
  | nil => simp [inheritedWeight, takeAll]
  | cons s' log ih =>
    rw [List.cons_append, inheritedWeight, ih, inheritedWeight, Option.or_assoc]
    rfl

/-! ### The views of a table after one saying -/

lemma ids_intern_of_eq {xs : List String} (h : t.ids = xs.eraseDups) (id : String) :
    (t.intern id).ids = (xs ++ [id]).eraseDups := by
  rw [ids_intern, eraseDups_concat, h]
  simp only [List.mem_eraseDups]

lemma ids_take {xs : List String} (h : t.ids = xs.eraseDups) (s : Saying) :
    (t.take s).ids = (xs ++ s.mentions).eraseDups := by
  cases s with
  | fact f =>
    have hsubject := ids_intern_of_eq h f.subject
    rw [take, ids_record, introduce, ids_intern_of_eq hsubject, List.append_assoc]
    rfl
  | weight id w =>
    rw [take, ids_setWeight, Saying.mentions, eraseDups_concat, h]
    simp only [List.mem_eraseDups]

lemma relation_take (t : Table) (s : Saying) (a b : String) :
    (t.take s).relation a b = (s.tells? a b).or (t.relation a b) := by
  cases s with
  | fact f =>
    rw [take, relation_record, Saying.tells?, Fact.tells?]
    split_ifs <;> rfl
  | weight id w => rw [take, relation_setWeight, Saying.tells?, Option.none_or]

lemma equalities_take (t : Table) (s : Saying) :
    (t.take s).equalities = t.equalities ++ s.equality?.toList := by
  cases s with
  | fact f =>
    rw [take, equalities_record, Saying.equality?]
    split_ifs
    · rfl
    · rw [Option.toList_none, List.append_nil]
  | weight id w => rw [take, equalities_setWeight, Saying.equality?, Option.toList_none,
      List.append_nil]

lemma peers_write_of_eq {xs : List String} {a : String} (h : t.peers a = xs.eraseDups)
    (f : Fact) :
    (t.write f).peers a = (xs ++ if f.subject = a then [f.object] else []).eraseDups := by
  rw [peers, relationsOf_write]
  split_ifs with ha hb hb
  · have hkeys := Register.keys_insert (t.row f.subject).edges f.object f.relation
    have hpeers : (t.row f.subject).edges.keys = xs.eraseDups := ha ▸ h
    simp only [hpeers, List.mem_eraseDups] at hkeys
    rw [eraseDups_concat, ← hkeys, Register.keys]
  · exact absurd ha.symm hb
  · exact absurd hb.symm ha
  · rw [List.append_nil]
    exact h

lemma peers_writeAll_of_eq {xs : List String} {a : String} (h : t.peers a = xs.eraseDups)
    (fs : List Fact) :
    (t.writeAll fs).peers a =
      (xs ++ (fs.filter fun f => f.subject = a).map Fact.object).eraseDups := by
  induction fs generalizing t xs with
  | nil => rwa [writeAll_nil, List.filter_nil, List.map_nil, List.append_nil]
  | cons f fs ih =>
    rw [writeAll_cons, ih (peers_write_of_eq h f), List.append_assoc]
    by_cases hf : f.subject = a <;> simp [hf]

lemma peers_take {xs : List String} {a : String} (h : t.peers a = xs.eraseDups) (s : Saying) :
    (t.take s).peers a = (xs ++ s.peersOf a).eraseDups := by
  cases s with
  | fact f =>
    refine peers_writeAll_of_eq ?_ f.sides
    rw [peers, relationsOf_introduce]
    exact h
  | weight id w =>
    rw [take, peers, relationsOf_setWeight, Saying.peersOf, List.append_nil]
    exact h

lemma weight_take (t : Table) (s : Saying) (a : String) :
    (t.take s).weight a = (s.weight? a).or ((t.weight a).or ((s.level? a).bind t.weight)) := by
  cases s with
  | fact f =>
    rw [take, weight_record, Saying.weight?, Saying.level?, Option.none_or]
    split_ifs <;> simp
  | weight id w =>
    rw [take, weight_setWeight, Saying.weight?, Saying.level?]
    split_ifs <;> simp

/-! ### The whole account -/

/-- The table says what was said in the log, and nothing else. -/
structure Recounts (t : Table) (log : List Saying) : Prop where
  ids : t.ids = (log.flatMap Saying.mentions).eraseDups
  relation : ∀ a b, t.relation a b = log.reverse.findSome? fun s => s.tells? a b
  peers : ∀ a, t.peers a = (log.flatMap fun s => s.peersOf a).eraseDups
  equalities : t.equalities = log.filterMap Saying.equality?
  weight : ∀ a, t.weight a =
    (log.reverse.findSome? fun s => s.weight? a).or ((∅ : Table).inheritedWeight a log)

lemma recounts_empty : (∅ : Table).Recounts [] :=
  ⟨rfl, fun _ _ => rfl, fun _ => rfl, rfl, fun _ => rfl⟩

lemma Recounts.take {log : List Saying} (h : ((∅ : Table).takeAll log).Recounts log)
    (s : Saying) : (((∅ : Table).takeAll log).take s).Recounts (log ++ [s]) := by
  refine ⟨?_, fun a b => ?_, fun a => ?_, ?_, fun a => ?_⟩
  · rw [ids_take h.ids, List.flatMap_append, List.flatMap_singleton]
  · rw [relation_take, h.relation, List.reverse_concat, List.findSome?_cons]
    cases s.tells? a b <;> rfl
  · rw [peers_take (h.peers a), List.flatMap_append, List.flatMap_singleton]
  · rw [equalities_take, h.equalities, List.filterMap_append]
    cases hs : s.equality? <;> simp [hs]
  · rw [weight_take, h.weight, inheritedWeight_concat, List.reverse_concat,
      List.findSome?_cons, Option.or_assoc]
    cases s.weight? a <;> rfl

/-- **A table recounts the log** of all that was said from the start. -/
theorem recounts_takeAll (log : List Saying) : ((∅ : Table).takeAll log).Recounts log := by
  induction log using List.reverseRecOn with
  | nil => exact recounts_empty
  | append_singleton log s ih =>
    rw [takeAll_concat]
    exact ih.take s

end Table

/-! ### Calls at their word -/

/-- What the call says, if it checks nothing. -/
def Call.saying? {ν : Type} : Call ν → Option Saying
  | .record f => some (.fact f)
  | .recordSymbol a b symbol => some (.fact ⟨a, .ofSymbol symbol, b⟩)
  | .setWeight id w => some (.weight id w)
  | _ => none

namespace Graph

variable {ν : Type} [Identified ν] {g : Graph ν} {cs : List (Call ν)} {log : List Saying}

lemma table_after_of_saying? {c : Call ν} {s : Saying} (h : c.saying? = some s) :
    (g.after c).table = g.table.take s := by
  cases c with
  | record | recordSymbol | setWeight =>
    cases h
    rfl
  | tryRecord | tryRecordSymbol | derive | pushNode | tryPushNode => cases h

lemma table_run_of_saying? (h : cs.map Call.saying? = log.map some) :
    (g.run cs).table = g.table.takeAll log := by
  induction cs generalizing g log with
  | nil =>
    obtain rfl : log = [] := List.map_eq_nil_iff.mp h.symm
    rfl
  | cons c cs ih =>
    obtain ⟨s, log, rfl, hs, hlog⟩ := List.map_eq_cons_iff.mp h.symm
    rw [run_cons, ih hlog.symm, table_after_of_saying? hs.symm]
    rfl

/-- **The table of a graph recounts what was said**: by calls that check nothing, on a graph of
which nothing was known. -/
theorem recounts_run (hg : g.Made) (hlog : cs.map Call.saying? = log.map some) :
    (g.run cs).table.Recounts log := by
  rw [table_run_of_saying? hlog, hg.table_eq]
  exact Table.recounts_takeAll log

/-- Relations that are said again, an id that stands before itself, a symbol that is none, and
weights that come too late to be inherited. -/
def retold : List (Call String) :=
  [.setWeight "y" 5, .record ⟨"x", .equal, "w"⟩, .record ⟨"x", .equal, "y"⟩,
    .recordSymbol "x" "y" "<", .record ⟨"z", .less, "z"⟩, .recordSymbol "y" "x" "=>",
    .setWeight "y" 7, .setWeight "w" 9]

/-- What these calls say. -/
def retoldLog : List Saying :=
  [.weight "y" 5, .fact ⟨"x", .equal, "w"⟩, .fact ⟨"x", .equal, "y"⟩, .fact ⟨"x", .less, "y"⟩,
    .fact ⟨"z", .less, "z"⟩, .fact ⟨"y", .equal, "x"⟩, .weight "y" 7, .weight "w" 9]

theorem recounts_retold :
    retold.map Call.saying? = retoldLog.map some ∧
    ((ofNodes []).run retold).table.Recounts retoldLog ∧
    ((ofNodes []).run retold).table.relation "x" "y" = some .less ∧
    ((ofNodes []).run retold).table.relation "y" "x" = some .equal ∧
    ((ofNodes []).run retold).table.relation "z" "z" = some .greater ∧
    ((ofNodes []).run retold).table.weight "x" = some 5 ∧
    ((ofNodes []).run retold).table.ids = ["y", "x", "w", "z"] := by
  have hlog : retold.map Call.saying? = retoldLog.map some := by decide
  have h := recounts_run (.ofNodes []) hlog
  refine ⟨hlog, h, ?_, ?_, ?_, ?_, ?_⟩
  · rw [h.relation]
    decide
  · rw [h.relation]
    decide
  · rw [h.relation]
    decide
  · rw [h.weight]
    decide
  · rw [h.ids]
    decide

end Graph

end RuleOrder
