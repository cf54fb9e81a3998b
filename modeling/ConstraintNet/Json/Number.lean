import ConstraintNet.Decimal.Reading
import ConstraintNet.Json.Basic

/-!
# Numbers in JSON

Writing takes the shortest digits. Reading gathers digits in a word of 64 bits:
digits of the whole part that no longer fit only count for the exponent, and
digits of the fraction from the first that does not fit are dropped. The word is
then scaled by one power of ten, so the value of a long numeral may differ from
the nearest double in its last bits. A numeral too large for a double is refused.
-/

set_option autoImplicit false

namespace ConstraintNet.Json

def layout : Decimal.Layout where
  positional e := -5 ≤ e && e < 16
  wholeFraction := ['0']
  plus := ['+']
  tie := .toEven

def ofFloat (x : Float) : Json :=
  if x.isFinite then .number ⟨Decimal.isNegative x, layout.parts (.ofFloat x)⟩ else .null

namespace Numeral

def maxWord : Nat := 0xFFFFFFFFFFFFFFFF

/-- Appends digits to a word while they fit, and gives back those left over. -/
def gather (word : Nat) : List Char → Nat × List Char
  | [] => (word, [])
  | c :: cs =>
    let next := 10 * word + Decimal.digitValue c
    if next ≤ maxWord then gather next cs else (word, c :: cs)

def maxExponent : Nat := 308

def powerOfTen (e : Nat) : Float := Float.ofScientific 1 false e

/-- A word times a power of ten. Below the least power the scaling takes a second
step, after which nothing of a word is left. -/
def scale? (word : Nat) (e : Int) : Option Float :=
  let x := Float.ofNat word
  let n := e.natAbs
  if word = 0 then some 0
  else if 0 ≤ e then
    if n ≤ maxExponent then
      let y := x * powerOfTen n
      if y.isInf then none else some y
    else none
  else if n ≤ maxExponent then some (x / powerOfTen n)
  else if n ≤ 2 * maxExponent then
    some (x / powerOfTen maxExponent / powerOfTen (n - maxExponent))
  else some 0

def value? (n : Numeral) : Option Float :=
  let (word, surplus) := gather 0 n.parts.whole
  let (word, dropped) := gather word n.parts.fraction
  let e : Int := surplus.length - (n.parts.fraction.length - dropped.length : Nat)
  (scale? word (e + n.parts.exponent.getD 0)).map fun x => if n.negative then -x else x

def natural? (n : Numeral) : Option Nat :=
  match n with
  | ⟨false, ⟨whole, [], none⟩⟩ =>
    match gather 0 whole with
    | (word, []) => some word
    | _ => none
  | _ => none

end Numeral

def number? : Json → Option Float
  | .number n => n.value?
  | _ => none

mutual

def isSound : Json → Bool
  | .number n => n.value?.isSome
  | .string s => s.isSome
  | .array items => allSound items
  | .object members => membersSound members
  | _ => true

def allSound : List Json → Bool
  | [] => true
  | j :: js => j.isSound && allSound js

def membersSound : List (Option String × Json) → Bool
  | [] => true
  | (key, j) :: ms => key.isSome && j.isSound && membersSound ms

end

end ConstraintNet.Json
