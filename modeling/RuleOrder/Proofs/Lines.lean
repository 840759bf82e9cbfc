import Mathlib.Tactic.Lemma
import RuleOrder.Event

/-!
What the lines of a log tell.

A line has the level and the message of an event. An id stands in a message as it is, whatever
it holds, so a message is read by its words. The word after the mark says what the line reports,
and of a fact the first symbol that is a word of its own, after the first word, parts the subject
from the object. So a line that reports a written side is read as it was meant just when no word
of the subject is such a symbol, unless it is the first; the object may hold what it likes.
-/

namespace RuleOrder

structure Line where
  level : String
  message : String
  deriving DecidableEq, Repr

namespace Event

def line (e : Event) : Line := ⟨e.level.name, e.message⟩

/-- The side of a fact that the event says was written. -/
def written? : Event → Option Fact
  | connected f | overwritten f _ => some f
  | weighted .. | derived .. | answered .. | givenUp .. => none

/-- Whether the event is of a change, and not of a comparison. -/
def ofChange : Event → Bool
  | connected _ | overwritten .. | weighted .. | derived .. => true
  | answered .. | givenUp .. => false

lemma ofChange_of_isSome_written? {e : Event} (h : e.written?.isSome = true) :
    e.ofChange = true := by
  cases e with
  | connected | overwritten => rfl
  | weighted | derived | answered | givenUp => cases h

end Event

namespace Line

/-! ### The reader -/

abbrev Word := List Char

/-- What stands between the spaces of a text, be it empty. -/
def words (s : String) : List Word := s.toList.splitOn ' '

def unwords (ws : List Word) : String := String.ofList ([' '].intercalate ws)

/-- The relation that a word is the symbol of. -/
def symbol? (w : Word) : Option Relation :=
  if w = ['<'] then some .less
  else if w = ['='] then some .equal
  else if w = ['>'] then some .greater
  else none

/-- The fact whose subject begins with the words `x`, and is parted from the object by the first
symbol of the words to come. -/
def part? (x : List Word) : List Word → Option Fact
  | w :: v :: ws =>
    match symbol? w with
    | some r => some ⟨unwords x, r, unwords (v :: ws)⟩
    | none => part? (x ++ [w]) (v :: ws)
  | _ => none

def fact? : List Word → Option Fact
  | [] => none
  | w :: ws => part? [w] ws

/-- What the words after `overwrite` tell: the last two of them give the relation that stands now,
and those before them the fact that stood there. -/
def overwritten? (ws : List Word) : Option Event :=
  match ws.reverse with
  | new :: w :: old =>
    if w = "with".toList then
      (symbol? new).bind fun r =>
        (fact? old.reverse).map fun f => .overwritten { f with relation := r } f.relation
    else none
  | _ => none

/-- The event of a written side that a line reports. -/
def read? (l : Line) : Option Event :=
  match words l.message with
  | mark :: verb :: ws =>
    if l.level = "TRACE" ∧ unwords [mark, verb] = "[GRAPH] connect" then
      (fact? ws).map .connected
    else if l.level = "DEBUG" ∧ unwords [mark, verb] = "[GRAPH] overwrite" then overwritten? ws
    else none
  | _ => none

/-- No word of the id is a symbol, unless it is the first. -/
def Legible (id : String) : Prop := ∀ w ∈ (words id).tail, symbol? w = none

instance : DecidablePred Legible := fun id => List.decidableBAll _ (words id).tail

/-! ### Words -/

variable {x ws zs : List Word} {f : Fact} {e : Event}

lemma words_append (s t : String) : words (s ++ " " ++ t) = words s ++ words t := by
  have hspace : (s ++ " " ++ t).toList = s.toList ++ ' ' :: t.toList := by simp
  rw [words, hspace, List.splitOn_append_cons_self, words, words]

lemma words_ne_nil (s : String) : words s ≠ [] := List.splitOn_ne_nil ' ' s.toList

lemma exists_words_eq_cons (s : String) : ∃ w ws, words s = w :: ws :=
  List.exists_cons_of_ne_nil (words_ne_nil s)

lemma unwords_words (s : String) : unwords (words s) = s := by
  rw [unwords, words, List.intercalate_splitOn, String.ofList_toList]

lemma space_not_mem {w : Word} {s : String} (h : w ∈ words s) : ' ' ∉ w := by
  unfold words at h
  generalize s.toList = cs at h
  induction cs generalizing w with
  | nil =>
    rw [List.splitOn_nil, List.mem_singleton] at h
    simp [h]
  | cons c cs ih =>
    rw [List.splitOn_cons_eq_if_modifyHead] at h
    obtain ⟨v, vs, hv⟩ := List.exists_cons_of_ne_nil (List.splitOn_ne_nil ' ' cs)
    rw [hv] at h ih
    by_cases hc : c = ' '
    · rw [if_pos (by simpa using hc), List.mem_cons] at h
      rcases h with rfl | h
      · exact List.not_mem_nil
      · exact ih h
    · rw [if_neg (by simpa using hc), List.modifyHead_cons, List.mem_cons] at h
      rcases h with rfl | h
      · rw [List.mem_cons, not_or]
        exact ⟨fun hspace => hc hspace.symm, ih List.mem_cons_self⟩
      · exact ih (List.mem_cons_of_mem v h)

lemma words_unwords (hne : ws ≠ []) (h : ∀ w ∈ ws, ' ' ∉ w) : words (unwords ws) = ws := by
  rw [words, unwords, String.toList_ofList, List.splitOn_intercalate _ h hne]

lemma symbol?_eq_some_iff {w : Word} {r : Relation} :
    symbol? w = some r ↔ w = r.symbol.toList := by
  have hsymbols : Relation.less.symbol.toList = ['<'] ∧ Relation.equal.symbol.toList = ['='] ∧
      Relation.greater.symbol.toList = ['>'] := by decide
  obtain ⟨hless, hequal, hgreater⟩ := hsymbols
  unfold symbol?
  cases r <;> grind

lemma words_symbol (r : Relation) : words r.symbol = [r.symbol.toList] := by
  cases r <;> decide

lemma words_text (f : Fact) :
    words f.text = words f.subject ++ f.relation.symbol.toList :: words f.object := by
  rw [Fact.text, words_append, words_append, words_symbol, List.append_assoc]
  rfl

/-! ### Facts -/

lemma part?_append {r : Relation} (hzs : ∀ z ∈ zs, symbol? z = none) (hws : ws ≠ []) :
    part? x (zs ++ r.symbol.toList :: ws) = some ⟨unwords (x ++ zs), r, unwords ws⟩ := by
  induction zs generalizing x with
  | nil =>
    obtain ⟨v, vs, rfl⟩ := List.exists_cons_of_ne_nil hws
    simp [part?, symbol?_eq_some_iff.mpr rfl]
  | cons z zs ih =>
    have hz : symbol? z = none := hzs z List.mem_cons_self
    have hrest := ih (x := x ++ [z]) fun z' hz' => hzs z' (List.mem_cons_of_mem z hz')
    rw [List.append_cons]
    cases zs with
    | nil => simpa [part?, hz] using hrest
    | cons z' zs => simpa [part?, hz] using hrest

lemma isSome_part? {r : Relation} (hws : ws ≠ []) :
    (part? x (zs ++ r.symbol.toList :: ws)).isSome = true := by
  induction zs generalizing x with
  | nil => rw [part?_append (by simp) hws, Option.isSome_some]
  | cons z zs ih =>
    cases hz : symbol? z with
    | some s => cases zs <;> simp [part?, hz]
    | none =>
      have hrest := ih (x := x ++ [z])
      cases zs <;> simpa [part?, hz] using hrest

lemma exists_of_part?_eq_some (h : part? x ws = some f) :
    ∃ zs ⊆ ws, (∀ z ∈ zs, symbol? z = none) ∧ f.subject = unwords (x ++ zs) := by
  induction ws generalizing x with
  | nil => cases h
  | cons w ws ih =>
    cases ws with
    | nil => cases h
    | cons v ws =>
      cases hw : symbol? w with
      | some r =>
        simp only [part?, hw, Option.some.injEq] at h
        exact ⟨[], by simp, by simp, by rw [← h, List.append_nil]⟩
      | none =>
        simp only [part?, hw] at h
        obtain ⟨zs, hsub, hzs, hsubject⟩ := ih h
        refine ⟨w :: zs, List.cons_subset_cons w hsub, ?_, by simpa using hsubject⟩
        simpa [hw] using hzs

/-- The text of a fact is read as that fact just when its subject is legible. -/
lemma fact?_words_text_iff : fact? (words f.text) = some f ↔ Legible f.subject := by
  obtain ⟨w, zs, hx⟩ := exists_words_eq_cons f.subject
  have htext : words f.text = w :: (zs ++ f.relation.symbol.toList :: words f.object) := by
    rw [words_text, hx, List.cons_append]
  rw [htext, fact?, Legible, hx, List.tail_cons]
  constructor
  · intro h
    obtain ⟨zs', hsub, hzs', hsubject⟩ := exists_of_part?_eq_some h
    have hspace : ∀ v ∈ w :: zs', ' ' ∉ v := fun v hv =>
      space_not_mem (htext ▸ List.cons_subset_cons w hsub hv)
    have hwords : words f.subject = w :: zs' := by
      rw [hsubject, List.singleton_append, words_unwords (List.cons_ne_nil w zs') hspace]
    rw [hx, List.cons.injEq] at hwords
    exact hwords.2 ▸ hzs'
  · intro hzs
    rw [part?_append hzs (words_ne_nil f.object), unwords_words, List.singleton_append, ← hx,
      unwords_words]

lemma isSome_fact?_words_text (f : Fact) : (fact? (words f.text)).isSome = true := by
  obtain ⟨w, zs, hx⟩ := exists_words_eq_cons f.subject
  rw [words_text, hx, List.cons_append, fact?]
  exact isSome_part? (words_ne_nil f.object)

/-! ### Lines -/

lemma words_message {verb rest : String} (hverb : words verb = [verb.toList])
    (h : e.text = verb ++ " " ++ rest) :
    words e.message = "[GRAPH]".toList :: verb.toList :: words rest := by
  have hmark : words "[GRAPH]" = ["[GRAPH]".toList] := by decide
  have hmessage : e.message = "[GRAPH]" ++ " " ++ e.text := rfl
  rw [hmessage, words_append, hmark, h, words_append, hverb]
  rfl

lemma read?_line_of_text {level verb rest : String} (hlevel : e.level.name = level)
    (hverb : words verb = [verb.toList]) (htext : e.text = verb ++ " " ++ rest) :
    e.line.read? =
      if level = "TRACE" ∧ unwords ["[GRAPH]".toList, verb.toList] = "[GRAPH] connect" then
        (fact? (words rest)).map .connected
      else if level = "DEBUG" ∧
          unwords ["[GRAPH]".toList, verb.toList] = "[GRAPH] overwrite" then
        overwritten? (words rest)
      else none := by
  rw [read?, Event.line, hlevel, words_message hverb htext]

lemma read?_line_connected (f : Fact) :
    (Event.connected f).line.read? = (fact? (words f.text)).map .connected := by
  have hlevel : (Event.connected f).level.name = "TRACE" := rfl
  have htext : (Event.connected f).text = "connect" ++ " " ++ f.text := rfl
  rw [read?_line_of_text hlevel (by decide) htext, if_pos (by decide)]

lemma overwritten?_append (r : Relation) :
    overwritten? (ws ++ ["with".toList, r.symbol.toList]) =
      (fact? ws).map fun f => .overwritten { f with relation := r } f.relation := by
  have hreverse : (ws ++ ["with".toList, r.symbol.toList]).reverse =
      r.symbol.toList :: "with".toList :: ws.reverse := by simp
  simp only [overwritten?, hreverse, if_true, symbol?_eq_some_iff.mpr rfl, List.reverse_reverse,
    Option.bind_some]

lemma read?_line_overwritten (f : Fact) (old : Relation) :
    (Event.overwritten f old).line.read? =
      (fact? (words (Fact.mk f.subject old f.object).text)).map fun g =>
        .overwritten { g with relation := f.relation } g.relation := by
  let g : Fact := ⟨f.subject, old, f.object⟩
  have hlevel : (Event.overwritten f old).level.name = "DEBUG" := rfl
  have htext : (Event.overwritten f old).text =
      "overwrite" ++ " " ++ (g.text ++ " " ++ "with" ++ " " ++ f.relation.symbol) := by
    have hhead : "overwrite " = "overwrite" ++ " " := by decide
    have hwith : " with " = " " ++ "with" ++ " " := by decide
    unfold Event.text
    rw [hhead, hwith]
    simp only [String.append_assoc, -String.reduceAppend, g]
  have hrest : words (g.text ++ " " ++ "with" ++ " " ++ f.relation.symbol) =
      words g.text ++ ["with".toList, f.relation.symbol.toList] := by
    have hwith : words "with" = ["with".toList] := by decide
    rw [words_append, words_append, words_symbol, hwith, List.append_assoc]
    rfl
  rw [read?_line_of_text hlevel (by decide) htext, if_neg (by decide), if_pos (by decide), hrest,
    overwritten?_append]

/-- **A line of a written side is read as it was meant** just when the subject is legible. -/
theorem read?_line_iff (h : e.written? = some f) :
    e.line.read? = some e ↔ Legible f.subject := by
  cases e with
  | connected f' =>
    obtain rfl := Option.some.inj h
    rw [read?_line_connected, ← fact?_words_text_iff, Option.map_eq_some_iff]
    simp
  | overwritten f' old =>
    obtain rfl := Option.some.inj h
    have hsubject : f'.subject = (Fact.mk f'.subject old f'.object).subject := rfl
    rw [read?_line_overwritten, hsubject, ← fact?_words_text_iff, Option.map_eq_some_iff]
    constructor
    · rintro ⟨g, hg, heq⟩
      obtain ⟨hfact, hold⟩ := Event.overwritten.inj heq
      have hgeq : g = ⟨f'.subject, old, f'.object⟩ := by rw [← hfact, ← hold]
      rwa [hgeq] at hg
    · exact fun hg => ⟨_, hg, rfl⟩
  | weighted | derived | answered | givenUp => cases h

lemma isSome_read?_line (h : e.written?.isSome = true) : e.line.read?.isSome = true := by
  cases e with
  | connected f => rw [read?_line_connected, Option.isSome_map, isSome_fact?_words_text]
  | overwritten f old => rw [read?_line_overwritten, Option.isSome_map, isSome_fact?_words_text]
  | weighted | derived | answered | givenUp => cases h

lemma read?_line_eq_none (hwritten : e.written? = none) (hchange : e.ofChange = true) :
    e.line.read? = none := by
  cases e with
  | connected | overwritten => cases hwritten
  | weighted id weight =>
    have hlevel : (Event.weighted id weight).level.name = "TRACE" := rfl
    have htext : (Event.weighted id weight).text =
        "weight" ++ " " ++ (id ++ " = " ++ weight.toInt.repr) := by
      have hhead : "weight " = "weight" ++ " " := by decide
      unfold Event.text
      rw [hhead]
      simp only [String.append_assoc, -String.reduceAppend]
    rw [read?_line_of_text hlevel (by decide) htext, if_neg (by decide), if_neg (by decide)]
  | derived equalities facts =>
    have hlevel : (Event.derived equalities facts).level.name = "DEBUG" := rfl
    have htext : (Event.derived equalities facts).text =
        "derived" ++ " " ++ ("equal relations: " ++ equalities.repr ++ " pairs, " ++ facts.repr
          ++ " edges inherited") := by
      have hhead : "derived equal relations: " = "derived" ++ " " ++ "equal relations: " := by
        decide
      unfold Event.text
      rw [hhead]
      simp only [String.append_assoc, -String.reduceAppend]
    rw [read?_line_of_text hlevel (by decide) htext, if_neg (by decide), if_neg (by decide)]
  | answered | givenUp => cases hchange

end Line

end RuleOrder
