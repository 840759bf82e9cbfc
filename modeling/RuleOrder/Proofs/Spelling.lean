import Mathlib.Data.List.Forall2
import Mathlib.Data.List.Nodup
import Mathlib.Logic.Relation
import RuleOrder.Datum.Codec

/-!
In how many ways a value may be spelled.

The data of a value has a shape: an offset, a text, one name out of some, or parts that have
shapes of their own. A record of parts may as well be the list of them; its fields may come in
any order, and among others that the shape does not name; and a name may stand as the one field
of a record. None of this changes what is read, at whatever depth and however often it is done.
A part that is missing, or an offset out of range, is never made up for.
-/

namespace RuleOrder

/-- What the data of some kind of value is made of. -/
inductive Shape where
  | offset
  | text
  /-- One name out of some. -/
  | choice
  /-- Parts in an order, each with the name of its field. -/
  | parts (fields : List (String × Shape))

def Address.fields : List (String × Shape) :=
  [("start", .offset), ("end", .offset), ("text", .text)]

def Token.fields : List (String × Shape) := [("value", .text), ("address", .parts Address.fields)]

def Scope.fields : List (String × Shape) :=
  [("id", .text), ("kind", .choice), ("address", .parts Address.fields)]

namespace Datum

/-- The same value spelled in another way. -/
inductive Respelling : Shape → Datum → Datum → Prop
  /-- What a record has for the fields of the shape, listed in their order. -/
  | listed {fields fs ps} (h : List.Forall₂ (fun f p => (f.1, p) ∈ fs) fields ps) :
      Respelling (.parts fields) (.record fs) (.list ps)
  | named {fields ps} (h : ps.length = fields.length) :
      Respelling (.parts fields) (.list ps) (.record ((fields.map Prod.fst).zip ps))
  | permuted {fields fs gs} (h : fs.Perm gs) :
      Respelling (.parts fields) (.record fs) (.record gs)
  | added {fields fs gs name} (h : name ∉ fields.map Prod.fst) (d : Datum) :
      Respelling (.parts fields) (.record (fs ++ gs)) (.record (fs ++ (name, d) :: gs))
  /-- What stands under a name that is none of the shape's may be anything. -/
  | ignored {fields fs gs name} (h : name ∉ fields.map Prod.fst) (d e : Datum) :
      Respelling (.parts fields) (.record (fs ++ (name, d) :: gs))
        (.record (fs ++ (name, e) :: gs))
  | tagged (name : String) : Respelling .choice (.text name) (.record [(name, .null)])
  | untagged (name : String) : Respelling .choice (.record [(name, .null)]) (.text name)

/-- A value of which a part is lost. -/
inductive Spoiling : Shape → Datum → Datum → Prop
  | droppedField {fields fs name} (h : name ∈ fields.map Prod.fst) :
      Spoiling (.parts fields) (.record fs) (.record (fs.filter fun f => f.1 ≠ name))
  | droppedItem {fields} (ps : List Datum) (p : Datum) (qs : List Datum) :
      Spoiling (.parts fields) (.list (ps ++ p :: qs)) (.list (ps ++ qs))
  | outOfRange (d : Datum) {n : Int} (h : n < 0 ∨ 4294967295 < n) : Spoiling .offset d (.int n)
  | fraction (d : Datum) (digits : Int) (places : Nat) :
      Spoiling .offset d (.decimal digits places)

/-- A change of a value as a whole, or of one part of it at any depth. -/
inductive Within (change : Shape → Datum → Datum → Prop) : Shape → Datum → Datum → Prop
  | whole {s d e} (h : change s d e) : Within change s d e
  | field {fields fs gs name s d e} (hs : (name, s) ∈ fields) (h : Within change s d e) :
      Within change (.parts fields) (.record (fs ++ (name, d) :: gs))
        (.record (fs ++ (name, e) :: gs))
  | item {fields ps qs name s d e} (hs : fields[ps.length]? = some (name, s))
      (h : Within change s d e) :
      Within change (.parts fields) (.list (ps ++ d :: qs)) (.list (ps ++ e :: qs))

variable {α : Type} {fields : List (String × Shape)} {fs gs : List (String × Datum)}
  {d e p : Datum} {ps qs : List Datum} {name other : String} {s : Shape}
  {change : Shape → Datum → Datum → Prop}

/-! ### Fields of a record -/

lemma mem_of_sole? (h : sole? name fs = some d) : (name, d) ∈ fs := by
  have hmem : (name, d) ∈ fs.filter fun f => f.1 = name := by
    rw [sole?_eq_some_iff.mp h]
    exact List.mem_singleton_self _
  exact (List.mem_filter.mp hmem).1

lemma eq_of_sole? (h : sole? name fs = some d) (he : (name, e) ∈ fs) : e = d := by
  have hmem : (name, e) ∈ fs.filter fun f => f.1 = name :=
    List.mem_filter.mpr ⟨he, decide_eq_true rfl⟩
  rw [sole?_eq_some_iff.mp h, List.mem_singleton] at hmem
  exact (Prod.ext_iff.mp hmem).2

lemma sole?_perm (h : fs.Perm gs) : sole? name fs = sole? name gs := by
  ext d
  have hfilter := h.filter fun f => f.1 = name
  rw [sole?_eq_some_iff, sole?_eq_some_iff]
  constructor
  · intro hfs
    rw [hfs] at hfilter
    exact List.singleton_perm.mp hfilter |>.symm
  · intro hgs
    rw [hgs] at hfilter
    exact List.perm_singleton.mp hfilter

lemma sole?_append_cons (h : name ≠ other) (d : Datum) :
    sole? name (fs ++ (other, d) :: gs) = sole? name (fs ++ gs) := by
  have hother : ¬other = name := fun ho => h ho.symm
  simp [sole?, List.filter_append, hother]

lemma sole?_append_cons_self :
    sole? name (fs ++ (name, d) :: gs) = some p ↔
      name ∉ (fs ++ gs).map Prod.fst ∧ p = d := by
  rw [sole?_perm List.perm_middle, sole?_eq_some_iff, List.filter_cons_of_pos (by simp),
    List.cons.injEq, List.filter_eq_nil_iff]
  grind

lemma sole?_of_nodup (hfs : (fs.map Prod.fst).Nodup) (h : (name, d) ∈ fs) :
    sole? name fs = some d := by
  obtain ⟨fs, gs, rfl⟩ := List.append_of_mem h
  refine sole?_append_cons_self.mpr ⟨?_, rfl⟩
  rw [List.map_append, List.map_cons, List.nodup_middle] at hfs
  rw [List.map_append]
  exact (List.nodup_cons.mp hfs).1

/-! ### The parts of a value -/

lemma mapM_eq_some_iff {β γ : Type} {f : β → Option γ} {xs : List β} {ys : List γ} :
    xs.mapM f = some ys ↔ List.Forall₂ (fun x y => f x = some y) xs ys := by
  induction xs generalizing ys with
  | nil => simp [eq_comm]
  | cons x xs ih =>
    rw [List.mapM_cons, List.forall₂_cons_left_iff]
    cases hx : f x with
    | none => simp
    | some y =>
      cases hxs : xs.mapM f <;> simp [← ih, hxs, eq_comm]

/-- The parts of the shape are found in a record, one field for each. -/
def Found (fs : List (String × Datum)) (fields : List (String × Shape)) (ps : List Datum) :
    Prop :=
  List.Forall₂ (fun f p => sole? f.1 fs = some p) fields ps

lemma parts?_record_eq_some_iff :
    (record fs).parts? (fields.map Prod.fst) = some ps ↔ Found fs fields ps := by
  change (fields.map Prod.fst).mapM (fun name => sole? name fs) = some ps ↔ _
  rw [mapM_eq_some_iff, List.forall₂_map_left_iff, Found]

lemma parts?_list_eq_some_iff :
    (list qs).parts? (fields.map Prod.fst) = some ps ↔ qs.length = fields.length ∧ qs = ps := by
  rw [parts?_list, List.length_map]
  split_ifs with h <;> simp [h]

lemma Found.congr (h : Found fs fields ps)
    (heq : ∀ f ∈ fields, sole? f.1 gs = sole? f.1 fs) : Found gs fields ps := by
  unfold Found at h ⊢
  rw [List.forall₂_iff_zip] at h ⊢
  refine ⟨h.1, fun {f p} hmem => ?_⟩
  rw [heq f (List.of_mem_zip hmem).1]
  exact h.2 hmem

lemma Found.eq_of_mem (h : Found fs fields ps)
    (hqs : List.Forall₂ (fun f q => (f.1, q) ∈ fs) fields qs) : qs = ps := by
  induction hqs generalizing ps with
  | nil => exact (List.forall₂_nil_left_iff.mp h).symm
  | cons hmem _ ih =>
    obtain ⟨p, ps, hp, hps, rfl⟩ := List.forall₂_cons_left_iff.mp h
    rw [eq_of_sole? hp hmem, ih hps]

lemma found_zip (hnodup : (fields.map Prod.fst).Nodup) (h : ps.length = fields.length) :
    Found ((fields.map Prod.fst).zip ps) fields ps := by
  refine List.forall₂_iff_zip.mpr ⟨h.symm, fun {f p} hmem => sole?_of_nodup ?_ ?_⟩
  · rwa [List.map_fst_zip (Nat.le_of_eq ((List.length_map _).trans h.symm))]
  · rw [List.zip_map_left]
    exact List.mem_map_of_mem hmem

lemma Found.exists_mem (h : Found fs fields ps) (hname : name ∈ fields.map Prod.fst) :
    ∃ p, (name, p) ∈ fs := by
  unfold Found at h
  induction h with
  | nil => cases hname
  | cons hp _ ih =>
    rcases List.mem_cons.mp hname with rfl | hname
    · exact ⟨_, mem_of_sole? hp⟩
    · exact ih hname

lemma Respelling.parts? (h : Respelling (.parts fields) d e)
    (hnodup : (fields.map Prod.fst).Nodup) (hd : d.parts? (fields.map Prod.fst) = some ps) :
    e.parts? (fields.map Prod.fst) = some ps := by
  have hne : ∀ f ∈ fields, ∀ name ∉ fields.map Prod.fst, f.1 ≠ name := by
    rintro f hf _ hname rfl
    exact hname (List.mem_map_of_mem hf)
  cases h with
  | listed h =>
    -- each field stands in the record once, so no other list can be made of it
    have hfound := parts?_record_eq_some_iff.mp hd
    obtain rfl := hfound.eq_of_mem h
    exact parts?_list_eq_some_iff.mpr ⟨h.length_eq.symm, rfl⟩
  | named h =>
    obtain ⟨-, rfl⟩ := parts?_list_eq_some_iff.mp hd
    exact parts?_record_eq_some_iff.mpr (found_zip hnodup h)
  | permuted h =>
    rw [parts?_record_eq_some_iff] at hd ⊢
    exact hd.congr fun f _ => (sole?_perm h).symm
  | added h q =>
    rw [parts?_record_eq_some_iff] at hd ⊢
    exact hd.congr fun f hf => sole?_append_cons (hne f hf _ h) q
  | ignored h q r =>
    rw [parts?_record_eq_some_iff] at hd ⊢
    exact hd.congr fun f hf => by
      rw [sole?_append_cons (hne f hf _ h), sole?_append_cons (hne f hf _ h)]

lemma Spoiling.parts? (h : Spoiling (.parts fields) d e)
    (hd : d.parts? (fields.map Prod.fst) = some ps) :
    e.parts? (fields.map Prod.fst) = none := by
  refine Option.eq_none_iff_forall_ne_some.mpr fun qs he => ?_
  cases h with
  | droppedField h =>
    obtain ⟨q, hq⟩ := (parts?_record_eq_some_iff.mp he).exists_mem h
    exact of_decide_eq_true (List.mem_filter.mp hq).2 rfl
  | droppedItem ps p rs =>
    have hlen := (parts?_list_eq_some_iff.mp hd).1
    have hlen' := (parts?_list_eq_some_iff.mp he).1
    simp only [List.length_append, List.length_cons] at hlen hlen'
    omega

/-! ### A change of one part -/

/-- One of the parts changed, as `change` allows it for the shape of that part. -/
inductive OnePart (change : Shape → Datum → Datum → Prop) :
    List (String × Shape) → List Datum → List Datum → Prop
  | head {f fields d e ps} (h : change f.2 d e) : OnePart change (f :: fields) (d :: ps) (e :: ps)
  | tail {f fields p ps qs} (h : OnePart change fields ps qs) :
      OnePart change (f :: fields) (p :: ps) (p :: qs)

lemma Found.onePart (hnodup : (fields.map Prod.fst).Nodup) (hs : (name, s) ∈ fields)
    (hchange : change s d e) (h : Found (fs ++ (name, d) :: gs) fields ps) :
    ∃ qs, Found (fs ++ (name, e) :: gs) fields qs ∧ OnePart change fields ps qs := by
  induction fields generalizing ps with
  | nil => cases hs
  | cons f fields ih =>
    obtain ⟨hf, hnodup⟩ := List.nodup_cons.mp hnodup
    obtain ⟨p, ps, hp, hps, rfl⟩ := List.forall₂_cons_left_iff.mp h
    rcases List.mem_cons.mp hs with rfl | hs
    · -- the field of the first part has changed, and no other part is under its name
      obtain ⟨hnew, rfl⟩ := sole?_append_cons_self.mp hp
      have hrest : Found (fs ++ (name, e) :: gs) fields ps := by
        refine Found.congr hps fun f' hf' => ?_
        have hne : f'.1 ≠ name := fun heq => hf (List.mem_map.mpr ⟨f', hf', heq⟩)
        rw [sole?_append_cons hne, sole?_append_cons hne]
      exact ⟨e :: ps, .cons (sole?_append_cons_self.mpr ⟨hnew, rfl⟩) hrest, .head hchange⟩
    · obtain ⟨qs, hqs, hone⟩ := ih hnodup hs hps
      have hne : f.1 ≠ name := fun heq => hf (List.mem_map.mpr ⟨_, hs, heq.symm⟩)
      rw [sole?_append_cons hne, ← sole?_append_cons hne e] at hp
      exact ⟨p :: qs, .cons hp hqs, .tail hone⟩

lemma onePart_of_getElem? (hs : fields[ps.length]? = some (name, s)) (hchange : change s d e) :
    OnePart change fields (ps ++ d :: qs) (ps ++ e :: qs) := by
  induction ps generalizing fields with
  | nil =>
    cases fields with
    | nil => cases hs
    | cons f fields =>
      obtain rfl := Option.some.inj hs
      exact .head hchange
  | cons p ps ih =>
    cases fields with
    | nil => cases hs
    | cons f fields => exact .tail (ih hs)

/-- A change within a value is one of the value itself, or one of its parts has changed. -/
lemma Within.onePart (h : Within change (.parts fields) d e)
    (hnodup : (fields.map Prod.fst).Nodup) (hd : d.parts? (fields.map Prod.fst) = some ps) :
    change (.parts fields) d e ∨
      ∃ qs, e.parts? (fields.map Prod.fst) = some qs ∧ OnePart (Within change) fields ps qs := by
  cases h with
  | whole h => exact Or.inl h
  | field hs h =>
    simp only [parts?_record_eq_some_iff] at hd ⊢
    exact Or.inr (hd.onePart hnodup hs h)
  | item hs h =>
    obtain ⟨hlen, rfl⟩ := parts?_list_eq_some_iff.mp hd
    refine Or.inr ⟨_, parts?_list_eq_some_iff.mpr ⟨?_, rfl⟩, onePart_of_getElem? hs h⟩
    rw [← hlen, List.length_append, List.length_append, List.length_cons, List.length_cons]

/-! ### Readers -/

/-- What is read after a change that either keeps the value or loses it. -/
def ifKept (kept : Bool) (a : α) : Option α := if kept then some a else none

/-- Within a value of the shape, the change keeps whatever is read, or loses it. -/
def Sends (change : Shape → Datum → Datum → Prop) (kept : Bool) (s : Shape)
    (read : Datum → Option α) : Prop :=
  ∀ d e a, Within change s d e → read d = some a → read e = ifKept kept a

/-- The same, where the value is read from its parts. -/
def SendsParts (change : Shape → Datum → Datum → Prop) (kept : Bool)
    (fields : List (String × Shape)) (ofParts? : List Datum → Option α) : Prop :=
  ∀ ps qs a, OnePart (Within change) fields ps qs → ofParts? ps = some a →
    ofParts? qs = ifKept kept a

/-- Read the first part, and then the others in view of it. -/
def readPart {β : Type} (read : Datum → Option β) (rest : β → List Datum → Option α) :
    List Datum → Option α
  | [] => none
  | d :: ds => (read d).bind fun b => rest b ds

/-- Nothing is left to read. -/
def endOfParts (a : α) : List Datum → Option α
  | [] => some a
  | _ :: _ => none

lemma sendsParts_nil {kept : Bool} {ofParts? : List Datum → Option α} :
    SendsParts change kept [] ofParts? := by
  intro ps qs a hone
  cases hone

lemma Sends.cons {β : Type} {kept : Bool} {read : Datum → Option β}
    {rest : β → List Datum → Option α} (hread : Sends change kept s read)
    (hrest : ∀ b, SendsParts change kept fields (rest b)) :
    SendsParts change kept ((name, s) :: fields) (readPart read rest) := by
  intro ps qs a hone ha
  -- what follows is read in view of the first part, so that one has to be read as before
  cases hone with
  | @head _ _ d e ps hwithin =>
    obtain ⟨b, hb, hps⟩ := Option.bind_eq_some_iff.mp ha
    change (read e).bind (rest · ps) = ifKept kept a
    rw [hread d e b hwithin hb]
    cases kept with
    | true => exact hps
    | false => rfl
  | @tail _ _ p ps qs hone =>
    obtain ⟨b, hb, hps⟩ := Option.bind_eq_some_iff.mp ha
    change (read p).bind (rest · qs) = ifKept kept a
    rw [hb]
    exact hrest b ps qs a hone hps

/-- The change keeps what is read where it is made, or loses it there. -/
structure Uniform (change : Shape → Datum → Datum → Prop) (kept : Bool) : Prop where
  offset : ∀ d e o, change .offset d e → Offset.ofDatum? d = some o →
    Offset.ofDatum? e = ifKept kept o
  text : ∀ d e t, change .text d e → d.text? = some t → e.text? = ifKept kept t
  choice : ∀ d e v, change .choice d e → d.variant? = some v → e.variant? = ifKept kept v
  parts : ∀ fields d e ps, (fields.map Prod.fst).Nodup → change (.parts fields) d e →
    d.parts? (fields.map Prod.fst) = some ps → e.parts? (fields.map Prod.fst) = ifKept kept ps

lemma uniform_respelling : Uniform Respelling true where
  offset _ _ _ h := by cases h
  text _ _ _ h := by cases h
  choice _ _ _ h hd := by cases h <;> exact hd
  parts _ _ _ _ hnodup h hd := h.parts? hnodup hd

lemma uniform_spoiling : Uniform Spoiling false where
  offset _ _ _ h _ := by
    cases h with
    | outOfRange _ h =>
      refine if_neg fun hn => ?_
      simp only [Offset.toNat_last] at hn
      omega
    | fraction => rfl
  text _ _ _ h := by cases h
  choice _ _ _ h := by cases h
  parts _ _ _ _ _ h hd := h.parts? hd

namespace Uniform

variable {kept : Bool}

lemma sends_offset (h : Uniform change kept) : Sends change kept .offset Offset.ofDatum? := by
  rintro d e o (hchange | _ | _) hd
  exact h.offset d e o hchange hd

lemma sends_text (h : Uniform change kept) : Sends change kept .text text? := by
  rintro d e t (hchange | _ | _) hd
  exact h.text d e t hchange hd

lemma sends_choice (h : Uniform change kept) (f : String → Option α) :
    Sends change kept .choice fun d => d.variant?.bind f := by
  rintro d e a (hchange | _ | _) hd
  obtain ⟨v, hv, hf⟩ := Option.bind_eq_some_iff.mp hd
  change e.variant?.bind f = ifKept kept a
  rw [h.choice d e v hchange hv]
  cases kept with
  | true => exact hf
  | false => rfl

lemma sends_parts (h : Uniform change kept) {ofParts? : List Datum → Option α}
    (hnodup : (fields.map Prod.fst).Nodup) (hparts : SendsParts change kept fields ofParts?) :
    Sends change kept (.parts fields) fun d => (d.parts? (fields.map Prod.fst)).bind ofParts? := by
  intro d e a hwithin hd
  obtain ⟨ps, hps, ha⟩ := Option.bind_eq_some_iff.mp hd
  change (e.parts? (fields.map Prod.fst)).bind ofParts? = ifKept kept a
  rcases hwithin.onePart hnodup hps with hchange | ⟨qs, hqs, hone⟩
  · rw [h.parts fields d e ps hnodup hchange hps]
    cases kept with
    | true => exact ha
    | false => rfl
  · rw [hqs]
    exact hparts ps qs a hone ha

end Uniform

end Datum

/-! ### Addresses, tokens and scopes -/

section Sends

open Datum

variable {change : Shape → Datum → Datum → Prop} {kept : Bool}

lemma Address.ofParts?_eq_readPart : ofParts? =
    readPart Offset.ofDatum? fun start => readPart Offset.ofDatum? fun stop =>
      readPart text? fun text => endOfParts ⟨start, stop, text⟩ := by
  funext ps
  rcases ps with _ | ⟨x, _ | ⟨y, _ | ⟨z, _ | ⟨w, ps⟩⟩⟩⟩ <;> simp [ofParts?, readPart, endOfParts]

lemma Token.ofParts?_eq_readPart : ofParts? =
    readPart text? fun value => readPart Address.ofDatum? fun address =>
      endOfParts ⟨value, address⟩ := by
  funext ps
  rcases ps with _ | ⟨x, _ | ⟨y, _ | ⟨z, ps⟩⟩⟩ <;> simp [ofParts?, readPart, endOfParts]

lemma Scope.ofParts?_eq_readPart : ofParts? =
    readPart text? fun id => readPart ScopeKind.ofDatum? fun kind =>
      readPart Address.ofDatum? fun address => endOfParts ⟨id, kind, address⟩ := by
  funext ps
  rcases ps with _ | ⟨x, _ | ⟨y, _ | ⟨z, _ | ⟨w, ps⟩⟩⟩⟩ <;> simp [ofParts?, readPart, endOfParts]

lemma Address.sends_ofDatum? (h : Uniform change kept) :
    Sends change kept (.parts fields) ofDatum? := by
  refine h.sends_parts (by decide) ?_
  rw [ofParts?_eq_readPart]
  exact h.sends_offset.cons fun _ => h.sends_offset.cons fun _ => h.sends_text.cons fun _ =>
    sendsParts_nil

lemma Token.sends_ofDatum? (h : Uniform change kept) :
    Sends change kept (.parts fields) ofDatum? := by
  refine h.sends_parts (by decide) ?_
  rw [ofParts?_eq_readPart]
  exact h.sends_text.cons fun _ => (Address.sends_ofDatum? h).cons fun _ => sendsParts_nil

lemma Scope.sends_ofDatum? (h : Uniform change kept) :
    Sends change kept (.parts fields) ofDatum? := by
  refine h.sends_parts (by decide) ?_
  rw [ofParts?_eq_readPart]
  exact h.sends_text.cons fun _ => (h.sends_choice ScopeKind.ofVariantName?).cons fun _ =>
    (Address.sends_ofDatum? h).cons fun _ => sendsParts_nil

end Sends

/-- What is written reads back, and so it does however it is spelled; but not when a part of it
is lost. -/
structure Faithful {α : Type} (s : Shape) (write : α → Datum) (read : Datum → Option α) :
    Prop where
  read_write : ∀ a, read (write a) = some a
  respelled : ∀ a d e, read d = some a →
    Relation.ReflTransGen (Datum.Within Datum.Respelling s) d e → read e = some a
  spoilt : ∀ a d e, read d = some a → Datum.Within Datum.Spoiling s d e → read e = none

lemma faithful_of_sends {α : Type} {s : Shape} {write : α → Datum} {read : Datum → Option α}
    (hwrite : ∀ a, read (write a) = some a)
    (h : ∀ change kept, Datum.Uniform change kept → Datum.Sends change kept s read) :
    Faithful s write read where
  read_write := hwrite
  respelled a d e hd hspell := by
    induction hspell with
    | refl => exact hd
    | tail _ hstep ih => exact h _ _ Datum.uniform_respelling _ _ a hstep ih
  spoilt a d e hd hspoil := h _ _ Datum.uniform_spoiling d e a hspoil hd

/-- **Values read back in whatever way they are spelled**, and nothing is read where a part is
missing or an offset is out of range. -/
theorem faithful_data :
    Faithful (.parts Address.fields) Address.toDatum Address.ofDatum? ∧
    Faithful (.parts Token.fields) Token.toDatum Token.ofDatum? ∧
    Faithful (.parts Scope.fields) Scope.toDatum Scope.ofDatum? ∧
    Faithful .choice ScopeKind.toDatum ScopeKind.ofDatum? ∧
    Faithful .choice Relation.toDatum Relation.ofDatum? :=
  ⟨faithful_of_sends Address.ofDatum?_toDatum fun _ _ h => Address.sends_ofDatum? h,
    faithful_of_sends Token.ofDatum?_toDatum fun _ _ h => Token.sends_ofDatum? h,
    faithful_of_sends Scope.ofDatum?_toDatum fun _ _ h => Scope.sends_ofDatum? h,
    faithful_of_sends ScopeKind.ofDatum?_toDatum fun _ _ h =>
      h.sends_choice ScopeKind.ofVariantName?,
    faithful_of_sends Relation.ofDatum?_toDatum fun _ _ h => h.sends_choice Relation.ofName?⟩

example : Scope.ofDatum? (.list [.text "e", .record [("LexerScope", .null)],
    .record [("text", .text "x"), ("more", .null), ("end", .int 3), ("start", .int 7)]]) =
      some ⟨"e", .lexer, ⟨7, 3, "x"⟩⟩ := by
  decide

end RuleOrder
