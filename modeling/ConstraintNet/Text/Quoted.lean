import ConstraintNet.Text.Unprintable

/-!
# Quoted text

Text between double quotes for diagnostics. Quotes, backslashes and unprintable
characters are escaped; single quotes are not.
-/

set_option autoImplicit false

namespace ConstraintNet.Text

def hexadecimal (n : Nat) : List Char := Nat.toDigits 16 n

def escape (c : Char) : List Char :=
  match c with
  | '"' => ['\\', '"']
  | '\\' => ['\\', '\\']
  | '\t' => ['\\', 't']
  | '\n' => ['\\', 'n']
  | '\r' => ['\\', 'r']
  | '\x00' => ['\\', '0']
  | c => if isUnprintable c then "\\u\x7b".toList ++ hexadecimal c.toNat ++ ['\x7d'] else [c]

def quote (s : String) : String :=
  String.ofList ('"' :: s.toList.flatMap escape ++ ['"'])

end ConstraintNet.Text
