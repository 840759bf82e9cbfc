import RuleOrder.Source.Address

/-!
# Scopes

A scope is a node of a syntax tree: the id of the rule that made it, the grammar that the rule
belongs to, and the address of the text it spans.
-/

namespace RuleOrder

/-- The grammar from which a scope comes. -/
inductive ScopeKind where
  | unknown
  | lexer
  | parser
  deriving DecidableEq, Hashable, Repr, Inhabited

namespace ScopeKind

def isUnknown : ScopeKind → Bool
  | unknown => true
  | _ => false

def isLexer : ScopeKind → Bool
  | lexer => true
  | _ => false

def isParser : ScopeKind → Bool
  | parser => true
  | _ => false

def name : ScopeKind → String
  | unknown => "unknown"
  | lexer => "lexer"
  | parser => "parser"

end ScopeKind

structure Scope where
  id : String
  kind : ScopeKind
  address : Address
  deriving DecidableEq, Hashable, Repr, Inhabited

namespace Scope

/-- A scope made by a rule of the lexer grammar. -/
def lexer (id : String) (address : Address) : Scope := ⟨id, .lexer, address⟩

/-- A scope made by a rule of the parser grammar. -/
def parser (id : String) (address : Address) : Scope := ⟨id, .parser, address⟩

end Scope

end RuleOrder
