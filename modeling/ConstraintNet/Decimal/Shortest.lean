import ConstraintNet.Decimal.Binary

/-!
# Shortest decimals

The shortest decimal of a double has the fewest significant digits among those
that round to it, and is the nearest of those. The grids `10 ^ scale` are tried
from the coarsest to the finest; on each only the two neighbours of the value
can be the nearest point. Two neighbours equally near are told apart by `Tie`.
-/

set_option autoImplicit false

namespace ConstraintNet.Decimal

structure Scaled where
  coefficient : Nat
  scale : Int
  deriving DecidableEq

inductive Tie where
  | up
  | toEven
  deriving DecidableEq

def digitCount (n : Nat) : Nat := (Nat.toDigits 10 n).length

/-- A quarter unit of the last binary place, as a quotient of naturals
in units of `10 ^ scale`. -/
structure Grid where
  quarter : Nat
  unit : Nat

def Grid.at (b : Binary) (scale : Int) : Grid where
  quarter := Nat.pow 2 (b.exponent - 2).toNat * Nat.pow 10 (-scale).toNat
  unit := Nat.pow 2 (2 - b.exponent).toNat * Nat.pow 10 scale.toNat

/-- Whether `n` units of the grid round to the value. The ends of the interval
round to the value whose significand is even. -/
def Grid.rounds (g : Grid) (b : Binary) (n : Nat) : Bool :=
  let lower := (4 * b.significand - if b.leastOfBinade then 1 else 2) * g.quarter
  let upper := (4 * b.significand + 2) * g.quarter
  if b.significand % 2 = 0 then lower ≤ n * g.unit && n * g.unit ≤ upper
  else lower < n * g.unit && n * g.unit < upper

def Grid.nearest? (g : Grid) (b : Binary) (tie : Tie) : Option Nat :=
  let value := 4 * b.significand * g.quarter
  let below := value / g.unit
  let rest := value % g.unit
  let upward : Bool := match tie with
    | .up => g.unit ≤ 2 * rest
    | .toEven => g.unit < 2 * rest || (g.unit = 2 * rest && below % 2 = 1)
  match g.rounds b below, g.rounds b (below + 1) with
  | true, true => some (if upward then below + 1 else below)
  | true, false => some below
  | false, true => some (below + 1)
  | false, false => none

def magnitude (b : Binary) : Int :=
  let num := b.significand * Nat.pow 2 b.exponent.toNat
  let den := Nat.pow 2 (-b.exponent).toNat
  let lift := if den ≤ num then 0 else (den.log2 - num.log2 + 1) * 30103 / 100000 + 1
  digitCount (num * Nat.pow 10 lift / den) - lift

/-- No double needs more significant digits to be told from its neighbours. -/
def maxDigits : Nat := 17

def firstNearest (b : Binary) (tie : Tie) : (grids : Nat) → (scale : Int) → Option Scaled
  | 0, _ => none
  | grids + 1, scale =>
    match (Grid.at b scale).nearest? b tie with
    | some n => some ⟨n, scale⟩
    | none => firstNearest b tie grids (scale - 1)

def Scaled.trim : (steps : Nat) → Scaled → Scaled
  | 0, d => d
  | steps + 1, d =>
    if d.coefficient ≠ 0 && d.coefficient % 10 = 0 then
      trim steps ⟨d.coefficient / 10, d.scale + 1⟩
    else d

def shortest (b : Binary) (tie : Tie) : Scaled :=
  if b.significand = 0 then ⟨0, 0⟩
  else ((firstNearest b tie maxDigits (magnitude b - 1)).getD ⟨b.significand, 0⟩).trim maxDigits

end ConstraintNet.Decimal
