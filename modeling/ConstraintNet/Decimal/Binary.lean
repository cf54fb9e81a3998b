/-!
# Binary magnitudes

A finite double is a sign and a magnitude `significand * 2 ^ exponent`. The reals
that round to it reach half a unit upwards and half a unit downwards, or only a
quarter downwards where it is the least of its binade.
-/

set_option autoImplicit false

namespace ConstraintNet.Decimal

structure Binary where
  significand : Nat
  exponent : Int
  /-- The next smaller double is only half a unit away. -/
  leastOfBinade : Bool
  deriving DecidableEq

def binadeSize : Nat := 0x10000000000000

def binadeCount : Nat := 0x800

/-- The magnitude that the low 63 bits of a finite double denote. -/
def Binary.ofBits (bits : Nat) : Binary :=
  let fraction : Nat := bits % binadeSize
  let field : Nat := bits / binadeSize % binadeCount
  if field = 0 then ⟨fraction, -1074, false⟩
  else ⟨binadeSize + fraction, (field : Int) - 1075, fraction = 0 && field ≠ 1⟩

def Binary.ofFloat (x : Float) : Binary := .ofBits x.toBits.toNat

/-- The sign bit, which tells `-0` from `0`. -/
def isNegative (x : Float) : Bool := binadeCount * binadeSize ≤ x.toBits.toNat

end ConstraintNet.Decimal
