import ConstraintNet.Network.Describe

/-!
# Propagation

A derived value is written into its variable, and every relationship of that
variable is then given the chance to derive another one. Within a digest a
variable is written once at most, so a cascade is no deeper than the number of
variables that were unknown when it began.
-/

set_option autoImplicit false

namespace ConstraintNet

structure Firing where
  watch : WatchId
  value : Float

structure Run where
  network : Network
  fired : List Firing

abbrev Propagation := EStateM Fault Run

namespace Propagation

def network : Propagation Network := return (← get).network

def update (f : Network → Network) : Propagation Unit :=
  modify fun run => { run with network := f run.network }

def fire (x : Variable) (value : Float) : Propagation Unit :=
  modify fun run => { run with fired := run.fired ++ x.watches.map (⟨·, value⟩) }

/-- Lets a relationship derive what it can, and writes that with `write`. Its
marker is set before the write, so that a cascade stops when it comes back, and
is put back if the write fails. -/
def solveWith (write : VariableId → Float → Propagation Bool) (d : Digest) (r : RelationshipId) :
    Propagation Bool := do
  let net ← network
  match net.relationshipAt r with
  | none => return false
  | some rel =>
    match rel.relation.derive (net.valueAt d) with
    | .ok .pending => return false
    | .error .divisionByZero => throw (.divisionByZero (net.render r))
    | .error .nonFinite => throw (.invalidValue (.nonFiniteResult (net.render r)))
    | .ok (.derived target value) =>
      update (·.updateRelationship r (·.mark (some d)))
      try discard (write target value)
      catch fault =>
        update (·.updateRelationship r (·.mark rel.marker))
        throw fault
      return true

def notifyWith (write : VariableId → Float → Propagation Bool) (d : Digest) (r : RelationshipId) :
    Propagation Bool := do
  match (← network).relationshipAt r with
  | none => return false
  | some rel => if rel.isMarked d then return true else solveWith write d r

/-- Writes a value into a variable and cascades, at most `depth` writes deep. The
answer is whether the value was new. -/
def writeWithin (d : Digest) : (depth : Nat) → VariableId → Float → Propagation Bool
  | 0, _, _ => return false
  | depth + 1, v, value => do
    let net ← network
    match net.variableAt v with
    | none => throw (.unknownVariable v)
    | some x =>
      match x.settle value d net.config.tolerance with
      | .error c => throw (.contradiction c)
      | .ok none => return false
      | .ok (some settled) =>
        update (·.updateVariable v fun _ => settled)
        fire x value
        x.relationships.forM fun r => discard (notifyWith (writeWithin d depth) d r)
        return true

end Propagation

namespace Network

def unknownCount (net : Network) (d : Digest) : Nat :=
  net.vars.live.countP fun x => (x.holding.valueAt d).isNone

def solvedCount (net : Network) (d : Digest) : Nat :=
  net.order.countP fun r => (net.relationshipAt r).any (·.isMarked d)

end Network

namespace Propagation

/-- No cascade that starts now is deeper. -/
def depth (d : Digest) : Propagation Nat := return (← network).unknownCount d + 1

def write (d : Digest) (v : VariableId) (value : Float) : Propagation Bool := do
  writeWithin d (← depth d) v value

def solveRelationship (d : Digest) (r : RelationshipId) : Propagation Bool := do
  solveWith (writeWithin d (← depth d)) d r

def pass (d : Digest) : Propagation Unit := do
  (← network).order.forM fun r => discard (solveRelationship d r)

def passSettles (d : Digest) : Propagation Bool := do
  let before := (← network).solvedCount d
  pass d
  return (← network).solvedCount d = before

/-- Passes until one marks nothing new, with at most `spare` passes after the
first. The answer is how many passes were made. -/
def passes (d : Digest) : (spare : Nat) → Propagation Nat
  | 0 => do
    pass d
    return 1
  | spare + 1 => do
    if ← passSettles d then return 1
    return (← passes d spare) + 1

end Propagation

structure Report where
  digest : Digest
  passes : Nat
  /-- Relationships that derived a value. -/
  solved : Nat
  /-- Relationships that still wait for operands. -/
  pending : Nat

def Report.isSettled (r : Report) : Bool := r.pending = 0

namespace Propagation

def solve (d : Digest) : Propagation Report := do
  update fun net => { net with lastDigest := max net.lastDigest d }
  let net ← network
  let made ← passes d (if net.config.fixpoint then net.order.length else 0)
  let net ← network
  let solved := net.solvedCount d
  return ⟨d, made, solved, net.order.length - solved⟩

end Propagation

end ConstraintNet
