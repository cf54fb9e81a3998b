import ConstraintNet.Decimal.Shortest

/-!
# Layouts of numbers

The same shortest digits are written in several ways. A layout says which
magnitudes are written positionally, what fraction a whole number gets, and how a
positive exponent is marked.
-/

set_option autoImplicit false

namespace ConstraintNet.Decimal

/-- The parts of a written magnitude. A point stands before a fraction only. -/
structure Parts where
  whole : List Char
  fraction : List Char
  exponent : Option Int
  deriving DecidableEq

structure Layout where
  /-- Whether a number whose leading digit counts `10 ^ exponent` is written
  without an exponent. -/
  positional : (exponent : Int) → Bool
  /-- The fraction of a whole number written positionally. -/
  wholeFraction : List Char
  /-- The mark of a positive exponent. -/
  plus : List Char
  tie : Tie

def Parts.positional (digits : List Char) (point : Int) (wholeFraction : List Char) : Parts :=
  if digits.length ≤ point then
    ⟨digits ++ List.replicate (point - digits.length).toNat '0', wholeFraction, none⟩
  else if 0 < point then ⟨digits.take point.toNat, digits.drop point.toNat, none⟩
  else ⟨['0'], List.replicate (-point).toNat '0' ++ digits, none⟩

def Parts.scientific (digits : List Char) (exponent : Int) : Parts :=
  ⟨digits.take 1, digits.drop 1, some exponent⟩

def Layout.parts (l : Layout) (b : Binary) : Parts :=
  let d := shortest b l.tie
  let digits := Nat.toDigits 10 d.coefficient
  let point : Int := d.scale + digits.length
  if b.significand = 0 || l.positional (point - 1) then
    .positional digits point l.wholeFraction
  else .scientific digits (point - 1)

def Parts.text (p : Parts) (plus : List Char) : List Char :=
  let fraction := if p.fraction = [] then [] else '.' :: p.fraction
  let exponent := match p.exponent with
    | none => []
    | some e => 'e' :: ((if e < 0 then ['-'] else plus) ++ Nat.toDigits 10 e.natAbs)
  p.whole ++ fraction ++ exponent

def Layout.text (l : Layout) (x : Float) : String :=
  if x.isNaN then "NaN"
  else
    let body := if x.isInf then "inf".toList else (l.parts (.ofFloat x)).text l.plus
    String.ofList (if isNegative x then '-' :: body else body)

/-- Never an exponent, and no point in a whole number. -/
def plain : Layout where
  positional _ := true
  wholeFraction := []
  plus := []
  tie := .up

def text (x : Float) : String := plain.text x

end ConstraintNet.Decimal
