import RuleOrder.Datum
import RuleOrder.Relation
import RuleOrder.Source.Scope
import RuleOrder.Source.Token

/-!
# Writing and reading values as data

For each kind of value, how it is written and what is read as one. Reading asks of an offset
only that it is an integer in range: an inverted address is written and read like any other.
-/

namespace RuleOrder

namespace Offset

def toDatum (o : Offset) : Datum := .int o.toNat

def ofDatum? : Datum → Option Offset
  | .int n => if 0 ≤ n ∧ n ≤ last.toNat then some (UInt32.ofNat n.toNat) else none
  | _ => none

theorem ofDatum?_toDatum (o : Offset) : ofDatum? (toDatum o) = some o := by
  have h := o.toNat_lt
  simp only [ofDatum?, toDatum, toNat_last, Int.toNat_natCast, UInt32.ofNat_toNat]
  rw [if_pos (by omega)]

end Offset

namespace Relation

/-- The name of a relation as a variant. -/
def name : Relation → String
  | less => "LessThan"
  | equal => "EqualTo"
  | greater => "GreaterThan"

def ofName? (s : String) : Option Relation := [less, equal, greater].find? fun r => r.name = s

def toDatum (r : Relation) : Datum := .text r.name

def ofDatum? (d : Datum) : Option Relation := d.variant?.bind ofName?

theorem ofDatum?_toDatum (r : Relation) : ofDatum? (toDatum r) = some r := by
  cases r <;> decide

end Relation

namespace ScopeKind

/-- The name of a kind as a variant. -/
def variantName : ScopeKind → String
  | unknown => "Unknown"
  | lexer => "LexerScope"
  | parser => "ParserScope"

def ofVariantName? (s : String) : Option ScopeKind :=
  [unknown, lexer, parser].find? fun k => k.variantName = s

def toDatum (k : ScopeKind) : Datum := .text k.variantName

def ofDatum? (d : Datum) : Option ScopeKind := d.variant?.bind ofVariantName?

theorem ofDatum?_toDatum (k : ScopeKind) : ofDatum? (toDatum k) = some k := by
  cases k <;> decide

end ScopeKind

namespace Address

def fieldNames : List String := ["start", "end", "text"]

def toDatum (a : Address) : Datum :=
  .record [("start", a.start.toDatum), ("end", a.stop.toDatum), ("text", .text a.text)]

/-- Read an address from its parts. -/
def ofParts? : List Datum → Option Address
  | [start, stop, text] => do
    return ⟨← Offset.ofDatum? start, ← Offset.ofDatum? stop, ← text.text?⟩
  | _ => none

def ofDatum? (d : Datum) : Option Address := (d.parts? fieldNames).bind ofParts?

theorem ofDatum?_toDatum (a : Address) : ofDatum? a.toDatum = some a := by
  simp [ofDatum?, toDatum, fieldNames, Datum.parts?, Datum.sole?, ofParts?,
    Offset.ofDatum?_toDatum]

end Address

namespace Token

def fieldNames : List String := ["value", "address"]

def toDatum (t : Token) : Datum :=
  .record [("value", .text t.value), ("address", t.address.toDatum)]

/-- Read a token from its parts. -/
def ofParts? : List Datum → Option Token
  | [value, address] => do return ⟨← value.text?, ← Address.ofDatum? address⟩
  | _ => none

def ofDatum? (d : Datum) : Option Token := (d.parts? fieldNames).bind ofParts?

theorem ofDatum?_toDatum (t : Token) : ofDatum? t.toDatum = some t := by
  simp [ofDatum?, toDatum, fieldNames, Datum.parts?, Datum.sole?, ofParts?,
    Address.ofDatum?_toDatum]

end Token

namespace Scope

def fieldNames : List String := ["id", "kind", "address"]

def toDatum (s : Scope) : Datum :=
  .record [("id", .text s.id), ("kind", s.kind.toDatum), ("address", s.address.toDatum)]

/-- Read a scope from its parts. -/
def ofParts? : List Datum → Option Scope
  | [id, kind, address] => do
    return ⟨← id.text?, ← ScopeKind.ofDatum? kind, ← Address.ofDatum? address⟩
  | _ => none

def ofDatum? (d : Datum) : Option Scope := (d.parts? fieldNames).bind ofParts?

theorem ofDatum?_toDatum (s : Scope) : ofDatum? s.toDatum = some s := by
  simp [ofDatum?, toDatum, fieldNames, Datum.parts?, Datum.sole?, ofParts?,
    ScopeKind.ofDatum?_toDatum, Address.ofDatum?_toDatum]

end Scope

end RuleOrder
