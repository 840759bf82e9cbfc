import Mathlib.Data.List.Basic
import Mathlib.Data.List.Induction
import Mathlib.Logic.Function.Basic
import RuleOrder.Proofs.Journal
import RuleOrder.Proofs.Lines
import RuleOrder.Proofs.Record

/-!
The relations of a table told from what is logged of it.

Every written side of a fact is reported, and nothing else changes a relation. So whoever enters
the reported sides one after the other on a blank sheet gets the relations of every id in the
table, in their order. And each report tells the truth of what stood on the sheet before: that
another relation stood there, and which, or that none did. Who has the lines of the log alone is
told as much, if they read as they were meant; without a condition on the ids they need not, for
two facts can have one text.
-/

namespace RuleOrder

/-- What a reader of the events knows: the relations of each id. -/
abbrev Sheet := String → Register Relation

namespace Event

/-- What the event says of the relation that stood before is so on the sheet. -/
def Fits (s : Sheet) : Event → Prop
  | connected f =>
    (s f.subject).get? f.object = none ∨ (s f.subject).get? f.object = some f.relation
  | overwritten f old => (s f.subject).get? f.object = some old ∧ old ≠ f.relation
  | weighted .. | derived .. | answered .. | givenUp .. => True

lemma fits_of_written?_eq_none {e : Event} (h : e.written? = none) (s : Sheet) : e.Fits s := by
  cases e with
  | connected | overwritten => cases h
  | weighted | derived | answered | givenUp => trivial

end Event

namespace Sheet

/-- Let the object of `f` stand among the relations of its subject as `f` says. -/
def assign (s : Sheet) (f : Fact) : Sheet :=
  Function.update s f.subject ((s f.subject).insert f.object f.relation)

/-- Take note of an event. -/
def enter (s : Sheet) (e : Event) : Sheet :=
  match e.written? with
  | some f => s.assign f
  | none => s

lemma enter_of_some {e : Event} {f : Fact} (h : e.written? = some f) (s : Sheet) :
    s.enter e = s.assign f := by
  rw [enter, h]

lemma enter_of_none {e : Event} (h : e.written? = none) (s : Sheet) : s.enter e = s := by
  rw [enter, h]

/-- What some events tell who knew nothing before. -/
def replay (es : List Event) : Sheet := es.foldl enter fun _ => ∅

lemma get?_assign (s : Sheet) (f : Fact) (a b : String) :
    (s.assign f a).get? b =
      if a = f.subject ∧ b = f.object then some f.relation else (s a).get? b := by
  by_cases ha : a = f.subject
  · rw [ha, assign, Function.update_self, Register.get?_insert]
    simp
  · rw [assign, Function.update_of_ne ha, if_neg fun h => ha h.1]

lemma replay_concat (es : List Event) (e : Event) :
    replay (es ++ [e]) = (replay es).enter e :=
  List.foldl_append

/-- The events in turn fit what those before them tell. -/
def Faithful (es : List Event) : Prop :=
  ∀ es₁ e es₂, es = es₁ ++ e :: es₂ → e.Fits (replay es₁)

lemma faithful_nil : Faithful [] := by
  intro es₁ e es₂ h
  simp at h

lemma Faithful.concat {es : List Event} {e : Event} (h : Faithful es) (he : e.Fits (replay es)) :
    Faithful (es ++ [e]) := by
  intro es₁ e' es₂ hes
  rcases List.eq_nil_or_concat es₂ with rfl | ⟨es₂, e₂, rfl⟩
  · obtain ⟨rfl, hlast⟩ := List.append_inj' hes rfl
    rwa [← List.singleton_inj.mp hlast]
  · have hes' : es ++ [e] = (es₁ ++ e' :: es₂) ++ [e₂] := by
      rw [hes, List.append_assoc, List.cons_append, List.concat_eq_append]
    exact h es₁ e' es₂ (List.append_inj_left' hes' rfl)

lemma isSome_get?_replay {es : List Event} {e : Event} {f : Fact} (he : e ∈ es)
    (h : e.written? = some f) : ((replay es f.subject).get? f.object).isSome = true := by
  induction es using List.reverseRecOn with
  | nil => cases he
  | append_singleton es e' ih =>
    rw [replay_concat]
    rcases List.mem_append.mp he with he | he
    · cases hw : e'.written? with
      | none => exact (enter_of_none hw (replay es)).symm ▸ ih he
      | some g =>
        rw [enter_of_some hw, get?_assign]
        split_ifs
        · rfl
        · exact ih he
    · obtain rfl := List.mem_singleton.mp he
      rw [enter_of_some h, get?_assign, if_pos ⟨rfl, rfl⟩, Option.isSome_some]

lemma exists_of_get?_replay {es : List Event} {a b : String} {r : Relation}
    (h : (replay es a).get? b = some r) : ∃ e ∈ es, e.written? = some ⟨a, r, b⟩ := by
  induction es using List.reverseRecOn with
  | nil => cases h
  | append_singleton es e ih =>
    have hearlier : (replay es a).get? b = some r →
        ∃ e' ∈ es ++ [e], e'.written? = some ⟨a, r, b⟩ := fun hr => by
      obtain ⟨e', he', hw⟩ := ih hr
      exact ⟨e', List.mem_append_left _ he', hw⟩
    rw [replay_concat] at h
    cases hw : e.written? with
    | none => exact hearlier (by rwa [enter_of_none hw] at h)
    | some f =>
      rw [enter_of_some hw, get?_assign] at h
      split_ifs at h with hf
      · obtain ⟨rfl, rfl⟩ := hf
        obtain rfl := Option.some.inj h
        exact ⟨e, List.mem_append_right _ (List.mem_singleton_self e), hw⟩
      · exact hearlier h

lemma replay_filter_written? (es : List Event) :
    replay (es.filter fun e => e.written?.isSome) = replay es := by
  induction es using List.reverseRecOn with
  | nil => rfl
  | append_singleton es e ih =>
    rw [List.filter_append, replay_concat]
    cases he : e.written? with
    | none => simp [he, ih, enter_of_none]
    | some f => simp [he, ih, replay_concat]

lemma Faithful.filter_written? {es : List Event} (h : Faithful es) :
    Faithful (es.filter fun e => e.written?.isSome) := by
  intro es₁ e es₂ hes
  obtain ⟨l₁, l₂, rfl, rfl, hrest⟩ := List.filter_eq_append_iff.mp hes
  obtain ⟨m₁, m₂, rfl, hnone, -, -⟩ := List.filter_eq_cons_iff.mp hrest
  have hfits := h (l₁ ++ m₁) e m₂ (by simp)
  have hm₁ : m₁.filter (fun e => e.written?.isSome) = [] := List.filter_eq_nil_iff.mpr hnone
  rwa [← replay_filter_written?, List.filter_append, hm₁, List.append_nil] at hfits

end Sheet

namespace Table

lemma written?_writeEvent (t : Table) (f : Fact) : (t.writeEvent f).written? = some f := by
  unfold writeEvent
  split
  · split_ifs <;> rfl
  · rfl

lemma isSome_written?_of_mem_writeEvents {t : Table} {fs : List Fact} {e : Event}
    (he : e ∈ t.writeEvents fs) : e.written?.isSome = true := by
  induction fs generalizing t with
  | nil => cases he
  | cons f fs ih =>
    rw [writeEvents, List.mem_cons] at he
    rcases he with rfl | he
    · rw [written?_writeEvent]
      rfl
    · exact ih he

lemma length_flatMap_sides_derived (t : Table) :
    (t.derived.flatMap Fact.sides).length = 2 * t.derived.length := by
  have hsides : ∀ f ∈ t.derived, f.sides.length = 2 := by
    intro f hf
    rw [Fact.sides, if_pos (isStrict_of_mem_derivation hf)]
    rfl
  calc (t.derived.flatMap Fact.sides).length
      = (t.derived.map fun f => f.sides.length).sum := List.length_flatMap
    _ = (t.derived.map fun _ => 2).sum := by rw [List.map_congr_left hsides]
    _ = 2 * t.derived.length := by
      rw [List.map_const', List.sum_replicate_nat, Nat.mul_comm]

end Table

/-- The events are an account of the relations in the table. -/
structure Accounts (es : List Event) (t : Table) : Prop where
  relation : ∀ a b, (Sheet.replay es a).get? b = t.relation a b
  order : ∀ a, (Sheet.replay es a).entries = t.relationsOf a
  faithful : Sheet.Faithful es

namespace Accounts

variable {es : List Event} {t u : Table}

lemma of_order (horder : ∀ a, (Sheet.replay es a).entries = t.relationsOf a)
    (hes : Sheet.Faithful es) : Accounts es t :=
  ⟨fun a b => congrArg (List.lookup b) (horder a), horder, hes⟩

lemma nil : Accounts [] ∅ := of_order (fun _ => rfl) Sheet.faithful_nil

lemma congr (h : Accounts es t) (hu : ∀ a, u.relationsOf a = t.relationsOf a) :
    Accounts es u :=
  of_order (fun a => (h.order a).trans (hu a).symm) h.faithful

lemma concat_of_written?_eq_none (h : Accounts es t) {e : Event} (he : e.written? = none) :
    Accounts (es ++ [e]) t := by
  have hreplay : Sheet.replay (es ++ [e]) = Sheet.replay es := by
    rw [Sheet.replay_concat, Sheet.enter_of_none he]
  refine of_order (fun a => ?_) (h.faithful.concat (Event.fits_of_written?_eq_none he _))
  rw [hreplay]
  exact h.order a

lemma fits_writeEvent (h : Accounts es t) (f : Fact) :
    (t.writeEvent f).Fits (Sheet.replay es) := by
  have hrel := h.relation f.subject f.object
  unfold Table.writeEvent
  cases ht : t.relation f.subject f.object with
  | none => exact Or.inl (hrel.trans ht)
  | some old =>
    rw [ht] at hrel
    by_cases hold : old = f.relation
    · simp only [hold, if_true]
      exact Or.inr (hold ▸ hrel)
    · simp only [hold, if_false]
      exact ⟨hrel, hold⟩

/-- **One written side** is told by its event. -/
lemma write (h : Accounts es t) (f : Fact) : Accounts (es ++ [t.writeEvent f]) (t.write f) := by
  have hsubject : Sheet.replay es f.subject = (t.row f.subject).edges :=
    Register.ext_entries (h.order f.subject)
  refine of_order (fun a => ?_) (h.faithful.concat (h.fits_writeEvent f))
  rw [Sheet.replay_concat, Sheet.enter_of_some (t.written?_writeEvent f),
    Table.relationsOf_write]
  by_cases ha : a = f.subject
  · rw [ha, if_pos rfl, Sheet.assign, Function.update_self, hsubject]
  · rw [if_neg ha, Sheet.assign, Function.update_of_ne ha]
    exact h.order a

/-! ### Lines -/

lemma filter_written? (h : Accounts es t) :
    Accounts (es.filter fun e => e.written?.isSome) t := by
  refine of_order (fun a => ?_) h.faithful.filter_written?
  rw [Sheet.replay_filter_written?]
  exact h.order a

lemma relationsOf_ne_nil (h : Accounts es t) {e : Event} {f : Fact} (he : e ∈ es)
    (hf : e.written? = some f) : t.relationsOf f.subject ≠ [] := by
  obtain ⟨r, hr⟩ := Option.isSome_iff_exists.mp (Sheet.isSome_get?_replay he hf)
  rw [h.relation, Table.relation_eq_some_iff] at hr
  exact List.ne_nil_of_mem hr

lemma filterMap_read?_map_line (hchange : ∀ e ∈ es, e.ofChange = true)
    (hlegible : ∀ e ∈ es, ∀ f, e.written? = some f → Line.Legible f.subject) :
    (es.map Event.line).filterMap Line.read? = es.filter fun e => e.written?.isSome := by
  induction es with
  | nil => rfl
  | cons e es ih =>
    have hrest := ih (fun e' he' => hchange e' (List.mem_cons_of_mem e he'))
      fun e' he' => hlegible e' (List.mem_cons_of_mem e he')
    cases he : e.written? with
    | none =>
      have hread : e.line.read? = none :=
        Line.read?_line_eq_none he (hchange e List.mem_cons_self)
      simp [he, hread, hrest]
    | some f =>
      have hread : e.line.read? = some e :=
        (Line.read?_line_iff he).mpr (hlegible e List.mem_cons_self f he)
      simp [he, hread, hrest]

/-- **Lines are an account as the events are**, where every id with relations is legible. -/
lemma lines (h : Accounts es t) (hchange : ∀ e ∈ es, e.ofChange = true)
    (hlegible : ∀ id, t.relationsOf id ≠ [] → Line.Legible id) :
    Accounts ((es.map Event.line).filterMap Line.read?) t := by
  rw [filterMap_read?_map_line hchange fun e he f hf =>
    hlegible f.subject (h.relationsOf_ne_nil he hf)]
  exact h.filter_written?

end Accounts

/-! ### Journals -/

namespace Journal

variable {j : Journal}

/-- The log of the journal is an account of its table. -/
def Exact (j : Journal) : Prop := Accounts j.log j.table

lemma exact_empty : (∅ : Journal).Exact := Accounts.nil

namespace Exact

lemma write (h : j.Exact) (f : Fact) : (j.write f).Exact := by
  rw [write_eq]
  exact Accounts.write h f

lemma foldl_write (h : j.Exact) (fs : List Fact) : (fs.foldl Journal.write j).Exact := by
  induction fs generalizing j with
  | nil => exact h
  | cons f fs ih => exact ih (h.write f)

lemma record (h : j.Exact) (f : Fact) : (j.record f).Exact := by
  have hintro : Exact ⟨j.table.introduce f, j.log⟩ :=
    Accounts.congr h (j.table.relationsOf_introduce f)
  have hlink := hintro.foldl_write f.sides
  rwa [← link_eq_foldl] at hlink

lemma tryRecord (h : j.Exact) (f : Fact) : (j.tryRecord f).Exact := by
  unfold Journal.tryRecord
  split
  · exact h
  · exact h.record f

lemma setWeight (h : j.Exact) (id : String) (w : Int64) : (j.setWeight id w).Exact :=
  (Accounts.congr h (j.table.relationsOf_setWeight id w)).concat_of_written?_eq_none rfl

lemma derive (h : j.Exact) : j.derive.Exact := by
  simp only [Journal.derive, foldl_inherit]
  exact (h.foldl_write _).concat_of_written?_eq_none rfl

lemma after {ν : Type} (h : j.Exact) (c : Call ν) : (j.after c).Exact := by
  cases c with
  | record f => exact h.record f
  | recordSymbol a b s => exact h.record ⟨a, .ofSymbol s, b⟩
  | tryRecord f => exact h.tryRecord f
  | tryRecordSymbol a b s =>
    unfold Journal.after
    cases hs : Relation.ofSymbol? s with
    | none => simpa only [hs] using h
    | some r => simpa only [hs] using h.tryRecord ⟨a, r, b⟩
  | setWeight id w => exact h.setWeight id w
  | derive => exact h.derive
  | pushNode | tryPushNode => exact h

lemma run {ν : Type} (h : j.Exact) (cs : List (Call ν)) : (j.run cs).Exact := by
  induction cs generalizing j with
  | nil => exact h
  | cons c cs ih => exact ih (h.after c)

end Exact

end Journal

/-! ### Graphs -/

namespace Graph

variable {ν : Type} [Identified ν]

lemma runEvents_append (g : Graph ν) (cs ds : List (Call ν)) :
    g.runEvents (cs ++ ds) = g.runEvents cs ++ (g.run cs).runEvents ds := by
  induction cs generalizing g with
  | nil => rfl
  | cons c cs ih => rw [List.cons_append, runEvents, ih, runEvents, run_cons, List.append_assoc]

lemma runEvents_concat (g : Graph ν) (cs : List (Call ν)) (c : Call ν) :
    g.runEvents (cs ++ [c]) = g.runEvents cs ++ (g.run cs).events c := by
  rw [runEvents_append, runEvents, runEvents, List.append_nil]

lemma ofChange_of_mem_events {g : Graph ν} {c : Call ν} {e : Event} (he : e ∈ g.events c) :
    e.ofChange = true := by
  have hwrite : ∀ t : Table, ∀ fs, e ∈ t.writeEvents fs → e.ofChange = true := fun t fs he =>
    Event.ofChange_of_isSome_written? (Table.isSome_written?_of_mem_writeEvents he)
  unfold events at he
  split at he
  · cases c with
    | record | recordSymbol | tryRecord | tryRecordSymbol => exact hwrite _ _ he
    | setWeight id w =>
      obtain rfl := List.mem_singleton.mp he
      rfl
    | derive =>
      rcases List.mem_append.mp he with he | he
      · exact hwrite _ _ he
      · obtain rfl := List.mem_singleton.mp he
        rfl
    | pushNode | tryPushNode => cases he
  · cases he

lemma ofChange_of_mem_runEvents {g : Graph ν} {cs : List (Call ν)} {e : Event}
    (he : e ∈ g.runEvents cs) : e.ofChange = true := by
  induction cs generalizing g with
  | nil => cases he
  | cons c cs ih =>
    rcases List.mem_append.mp he with he | he
    · exact ofChange_of_mem_events he
    · exact ih he

/-- What is logged of some calls in turn. -/
def runLines (g : Graph ν) (cs : List (Call ν)) : List Line := (g.runEvents cs).map Event.line

/-- **The log of a run is an account of the relations it leaves.** The events are reported step by
step: each side of a fact where it is written, in the order in which the steps follow. A line of
a written side reads as its event just when the subject holds no symbol as a word after its first,
and so the lines tell as much as the events, if no id with relations of its own does. A call that
is refused logs nothing. A derivation logs a line for each side that it writes and then its
summary, and the facts counted there are half of the lines before it. -/
theorem accounts_of_run {g : Graph ν} (hg : g.Made) (cs : List (Call ν)) :
    (∅ : Journal).run cs = (g.run cs).journal (g.runEvents cs) ∧
    Accounts (g.runEvents cs) (g.run cs).table ∧
    (∀ e ∈ g.runEvents cs, ∀ f, e.written? = some f →
      (e.line.read? = some e ↔ Line.Legible f.subject)) ∧
    ((∀ id, (g.run cs).table.relationsOf id ≠ [] → Line.Legible id) →
      Accounts ((g.runLines cs).filterMap Line.read?) (g.run cs).table) ∧
    (∀ c fault, (g.run cs).call c = .error fault → g.runLines (cs ++ [c]) = g.runLines cs) ∧
    ∃ ls n, g.runLines (cs ++ [.derive]) = g.runLines cs ++ (ls ++ [⟨"DEBUG",
        "[GRAPH] derived equal relations: " ++ (g.run cs).table.equalities.length.repr ++
          " pairs, " ++ n.repr ++ " edges inherited"⟩]) ∧
      (∀ l ∈ ls, l.read?.isSome = true) ∧ ls.length = 2 * n := by
  have hjournal : (∅ : Journal).run cs = (g.run cs).journal (g.runEvents cs) := by
    have hempty : (∅ : Journal) = g.journal [] := by rw [journal, hg.table_eq]; rfl
    rw [hempty, journal_run, List.nil_append]
  have hexact : ((∅ : Journal).run cs).Exact := Journal.exact_empty.run cs
  rw [hjournal] at hexact
  have haccounts : Accounts (g.runEvents cs) (g.run cs).table := hexact
  refine ⟨hjournal, haccounts, fun e _ f hf => Line.read?_line_iff hf,
    haccounts.lines fun e he => ofChange_of_mem_runEvents he, fun c fault h => ?_, ?_⟩
  · rw [runLines, runEvents_concat, events_eq_of_call_eq_error h, List.append_nil, runLines]
  · let t := (g.run cs).table
    let es := t.writeEvents (t.derived.flatMap Fact.sides)
    refine ⟨es.map Event.line, t.derived.length, ?_, fun l hl => ?_, ?_⟩
    · have hevents : (g.run cs).events .derive =
          es ++ [.derived t.equalities.length t.derived.length] := rfl
      rw [runLines, runEvents_concat, hevents, List.map_append, List.map_append]
      rfl
    · obtain ⟨e, he, rfl⟩ := List.mem_map.mp hl
      exact Line.isSome_read?_line (Table.isSome_written?_of_mem_writeEvents he)
    · rw [List.length_map, Table.length_writeEvents, Table.length_flatMap_sides_derived]

/-- Two facts that have one text, for each holds the symbol of the other in an id. -/
def ambiguous : List (Call String) :=
  [.record ⟨"a = b", .equal, "c"⟩, .record ⟨"a", .equal, "b = c"⟩]

/-- Whatever it is that a reader takes the line for, he takes it for one fact twice. -/
theorem not_accounts_of_ambiguous :
    (ofNodes []).runLines ambiguous =
      [⟨"TRACE", "[GRAPH] connect a = b = c"⟩, ⟨"TRACE", "[GRAPH] connect a = b = c"⟩] ∧
    ¬∃ read : Line → Option Event,
      Accounts (((ofNodes []).runLines ambiguous).filterMap read)
        ((ofNodes []).run ambiguous).table := by
  have hlines : (ofNodes []).runLines ambiguous =
      [⟨"TRACE", "[GRAPH] connect a = b = c"⟩, ⟨"TRACE", "[GRAPH] connect a = b = c"⟩] := by decide
  refine ⟨hlines, ?_⟩
  rintro ⟨read, h⟩
  rw [hlines] at h
  have htwo : ((ofNodes []).run ambiguous).table.relation "a = b" "c" = some .equal ∧
      ((ofNodes []).run ambiguous).table.relation "a" "b = c" = some .equal := by decide
  rw [← h.relation, ← h.relation] at htwo
  obtain ⟨e, he, hfirst⟩ := Sheet.exists_of_get?_replay htwo.1
  obtain ⟨e', he', hsecond⟩ := Sheet.exists_of_get?_replay htwo.2
  have hread : ∀ e'' ∈ [⟨"TRACE", "[GRAPH] connect a = b = c"⟩,
      ⟨"TRACE", "[GRAPH] connect a = b = c"⟩].filterMap read,
      read ⟨"TRACE", "[GRAPH] connect a = b = c"⟩ = some e'' := by simp
  have heq : e = e' := Option.some.inj ((hread e he).symm.trans (hread e' he'))
  rw [heq, hsecond] at hfirst
  exact absurd hfirst (by decide)

/-- An id that is set against itself, one that is level with it and inherits, and a call that is
refused. One id holds a space, and another a symbol as its first word. -/
def reported : List (Call String) :=
  [.record ⟨"x", .less, "x"⟩, .recordSymbol "x" "y 2" "<", .tryRecord ⟨"y 2", .less, "x"⟩,
    .setWeight "x" 3, .tryRecordSymbol "= z" "x" "=", .derive]

theorem accounts_of_reported :
    (ofNodes ([] : List String)).Made ∧
    (∀ id, ((ofNodes []).run reported).table.relationsOf id ≠ [] → Line.Legible id) ∧
    Accounts (((ofNodes []).runLines reported).filterMap Line.read?)
      ((ofNodes []).run reported).table ∧
    (ofNodes []).runLines reported =
      [⟨"TRACE", "[GRAPH] connect x < x"⟩, ⟨"DEBUG", "[GRAPH] overwrite x < x with >"⟩,
        ⟨"TRACE", "[GRAPH] connect x < y 2"⟩, ⟨"TRACE", "[GRAPH] connect y 2 > x"⟩,
        ⟨"TRACE", "[GRAPH] weight x = 3"⟩, ⟨"TRACE", "[GRAPH] connect = z = x"⟩,
        ⟨"DEBUG", "[GRAPH] overwrite = z = x with >"⟩, ⟨"TRACE", "[GRAPH] connect x < = z"⟩,
        ⟨"TRACE", "[GRAPH] connect = z < y 2"⟩, ⟨"TRACE", "[GRAPH] connect y 2 > = z"⟩,
        ⟨"DEBUG", "[GRAPH] derived equal relations: 1 pairs, 2 edges inherited"⟩] := by
  have hids : ∀ id ∈ ((ofNodes []).run reported).table.ids, Line.Legible id := by decide
  have hlegible : ∀ id, ((ofNodes []).run reported).table.relationsOf id ≠ [] →
      Line.Legible id := by
    intro id hid
    exact hids id (Table.mem_ids_of_relationsOf_ne_nil hid)
  exact ⟨.ofNodes [], hlegible, (accounts_of_run (.ofNodes []) reported).2.2.2.1 hlegible, by decide⟩

end Graph

end RuleOrder
