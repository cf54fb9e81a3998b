import ConstraintNet.Json.Number

/-!
# Writing JSON

Compact text, members in their order. Only quotes, backslashes and control
characters are escaped.
-/

set_option autoImplicit false

namespace ConstraintNet.Json

def hexDigit (n : Nat) : Char := Nat.digitChar n

def escape (c : Char) : List Char :=
  match c with
  | '"' => ['\\', '"']
  | '\\' => ['\\', '\\']
  | '\n' => ['\\', 'n']
  | '\r' => ['\\', 'r']
  | '\t' => ['\\', 't']
  | '\x08' => ['\\', 'b']
  | '\x0c' => ['\\', 'f']
  | c =>
    if c.toNat < 0x20 then
      ['\\', 'u', '0', '0', hexDigit (c.toNat / 16), hexDigit (c.toNat % 16)]
    else [c]

def writeString (s : String) : List Char := '"' :: s.toList.flatMap escape ++ ['"']

/-- A string that is no text is written as a replacement character. -/
def writeKey (s : Option String) : List Char := writeString (s.getD "\ufffd")

def Numeral.write (n : Numeral) : List Char :=
  let body := n.parts.text layout.plus
  if n.negative then '-' :: body else body

mutual

def write : Json → List Char
  | .null => "null".toList
  | .bool true => "true".toList
  | .bool false => "false".toList
  | .number n => n.write
  | .string s => writeKey s
  | .array [] => ['[', ']']
  | .array (j :: js) => '[' :: (j.write ++ writeItems js)
  | .object [] => ['\x7b', '\x7d']
  | .object ((key, j) :: ms) => '\x7b' :: (writeKey key ++ ':' :: (j.write ++ writeMembers ms))

def writeItems : List Json → List Char
  | [] => [']']
  | j :: js => ',' :: (j.write ++ writeItems js)

def writeMembers : List (Option String × Json) → List Char
  | [] => ['\x7d']
  | (key, j) :: ms => ',' :: (writeKey key ++ ':' :: (j.write ++ writeMembers ms))

end

def toText (j : Json) : String := String.ofList j.write

end ConstraintNet.Json
