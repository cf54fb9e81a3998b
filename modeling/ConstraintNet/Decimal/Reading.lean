import ConstraintNet.Decimal.Shortest

/-!
# Reading numbers

A number is an optional sign and then a word for infinity or for not-a-number,
or digits with an optional point and an optional exponent. At least one digit
stands beside the point. The value is the nearest double.
-/

set_option autoImplicit false

namespace ConstraintNet.Decimal

/-- Every magnitude of at least `10 ^ 400` is infinite and every one below
`10 ^ -400` is zero. -/
def extreme : Int := 400

def nearest (d : Scaled) : Float :=
  let top := d.scale + digitCount d.coefficient
  if d.coefficient = 0 || top < -extreme then 0
  else if extreme < top then 1 / 0
  else if d.scale < 0 then Float.ofScientific d.coefficient true d.scale.natAbs
  else Float.ofScientific d.coefficient false d.scale.natAbs

def leadingDigits (cs : List Char) : List Char × List Char :=
  (cs.takeWhile Char.isDigit, cs.dropWhile Char.isDigit)

def digitValue (c : Char) : Nat := c.toNat - '0'.toNat

def digitsValue (cs : List Char) : Nat := cs.foldl (fun n c => 10 * n + digitValue c) 0

def exponent? (cs : List Char) : Option Int :=
  let whole (ds : List Char) : Option Nat :=
    if ds ≠ [] && ds.all Char.isDigit then some (digitsValue ds) else none
  match cs with
  | '-' :: ds => (whole ds).map fun n => -(n : Int)
  | '+' :: ds => (whole ds).map Int.ofNat
  | ds => (whole ds).map Int.ofNat

def fraction : List Char → List Char × List Char
  | '.' :: cs => leadingDigits cs
  | cs => ([], cs)

def numeral? (cs : List Char) : Option Scaled :=
  let (whole, afterWhole) := leadingDigits cs
  let (part, afterPart) := fraction afterWhole
  let scaled (e : Int) : Scaled := ⟨digitsValue (whole ++ part), e - part.length⟩
  if whole ++ part = [] then none
  else match afterPart with
    | [] => some (scaled 0)
    | c :: cs => if c = 'e' || c = 'E' then (exponent? cs).map scaled else none

def word? (cs : List Char) : Option Float :=
  match String.ofList (cs.map Char.toLower) with
  | "inf" | "infinity" => some (1 / 0)
  | "nan" => some (0 / 0)
  | _ => none

def unsigned? (cs : List Char) : Option Float :=
  (word? cs).or ((numeral? cs).map nearest)

def read? : List Char → Option Float
  | '-' :: cs => (unsigned? cs).map (- ·)
  | '+' :: cs => unsigned? cs
  | cs => unsigned? cs

end ConstraintNet.Decimal
