import RuleOrder.Text.Hidden

/-!
# Quoted text

A text is quoted so that a reader sees every character of it: double quotes around it, the
six characters that have a short escape written with it, and each hidden character written by
its code point in lower-case hexadecimal. All else stands for itself, the plain space and the
single quote among it.
-/

namespace RuleOrder

namespace Quoted

/-- The characters that stand for `c` between the quotes. -/
def escape (c : Char) : List Char :=
  match c with
  | '\x00' => ['\\', '0']
  | '\t' => ['\\', 't']
  | '\n' => ['\\', 'n']
  | '\r' => ['\\', 'r']
  | '"' => ['\\', '"']
  | '\\' => ['\\', '\\']
  | c => if isHidden c then ['\\', 'u', '\x7b'] ++ Nat.toDigits 16 c.toNat ++ ['\x7d'] else [c]

end Quoted

/-- The text between double quotes, with nothing in it left unseen. -/
def quoted (s : String) : String :=
  String.ofList ('"' :: s.toList.flatMap Quoted.escape ++ ['"'])

theorem toList_quoted (s : String) :
    (quoted s).toList = '"' :: (s.toList.flatMap Quoted.escape ++ ['"']) := by
  simp [quoted]

end RuleOrder
