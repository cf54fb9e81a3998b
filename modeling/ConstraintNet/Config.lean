import ConstraintNet.Decimal.Layout

/-!
# Settings of a network

A tolerance within which values agree, whether passes repeat until nothing new is
solved, and the stem of the names of intermediate variables.
-/

set_option autoImplicit false

namespace ConstraintNet

structure Config where
  tolerance : Float
  fixpoint : Bool
  stem : String

namespace Config

def defaultTolerance : Float := 0.001

def standard : Config := ⟨defaultTolerance, true, "$"⟩

inductive Flaw where
  | tolerance (value : Float)
  | emptyStem

def Flaw.message : Flaw → String
  | .tolerance v =>
    "tolerance must be a finite non-negative number, got " ++ Decimal.text v
  | .emptyStem => "intermediate_prefix must not be empty"

def flaw? (c : Config) : Option Flaw :=
  if !c.tolerance.isFinite || c.tolerance < 0 then some (.tolerance c.tolerance)
  else if c.stem = "" then some .emptyStem
  else none

end Config

end ConstraintNet
