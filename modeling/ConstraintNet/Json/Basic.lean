import ConstraintNet.Decimal.Layout

/-!
# JSON

A JSON text as a tree. Numbers keep their digits, since not every numeral has a
finite value, and a string is `none` if an escape in it denotes half a surrogate
pair: both are sound as long as nobody asks for their value.
-/

set_option autoImplicit false

namespace ConstraintNet

namespace Json

structure Numeral where
  negative : Bool
  parts : Decimal.Parts

end Json

inductive Json where
  | null
  | bool (b : Bool)
  | number (n : Json.Numeral)
  | string (s : Option String)
  | array (items : List Json)
  | object (members : List (Option String × Json))

namespace Json

def ofString (s : String) : Json := .string (some s)

def record (members : List (String × Json)) : Json :=
  .object (members.map fun m => (some m.1, m.2))

mutual

def depth : Json → Nat
  | .array items => itemsDepth items + 1
  | .object members => membersDepth members + 1
  | _ => 0

def itemsDepth : List Json → Nat
  | [] => 0
  | j :: js => max j.depth (itemsDepth js)

def membersDepth : List (Option String × Json) → Nat
  | [] => 0
  | (_, j) :: ms => max j.depth (membersDepth ms)

end

/-- The value of the only member with a key. -/
def member? (members : List (Option String × Json)) (key : String) : Option Json :=
  match members.filter (·.1 = some key) with
  | [m] => some m.2
  | _ => none

def lacks (members : List (Option String × Json)) (key : String) : Bool :=
  members.all (·.1 ≠ some key)

def text? : Json → Option String
  | .string s => s
  | _ => none

def bool? : Json → Option Bool
  | .bool b => some b
  | _ => none

def items? : Json → Option (List Json)
  | .array items => some items
  | _ => none

end Json

end ConstraintNet
