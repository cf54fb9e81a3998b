import ConstraintNet.Operator
import ConstraintNet.Variable

/-!
# Relations

A relation ties a result to other operands and can be solved for whichever of
them is unknown: an equality both ways, an arithmetic relation for any of its
three operands, a custom relation for its output only.
-/

set_option autoImplicit false

namespace ConstraintNet

abbrev HostFunction := List Float → Float

inductive Relation where
  /-- `left = right` -/
  | equality (left right : VariableId)
  /-- `result = left op right` -/
  | arithmetic (op : Operator) (result left right : VariableId)
  /-- `output = name(inputs)` -/
  | custom (name : String) (function : HostFunction) (inputs : List VariableId)
      (output : VariableId)

inductive Derivation where
  | derived (target : VariableId) (value : Float)
  /-- Too little is known. -/
  | pending

inductive DeriveFault where
  | divisionByZero
  | nonFinite
  deriving DecidableEq

/-- Magnitudes below this count as zero in a division. -/
def zeroEpsilon : Float := 1e-12

/-- Zero over zero leaves the target open; anything else over zero is a fault. -/
def divideInto (target : VariableId) (numerator denominator : Float) :
    Except DeriveFault Derivation :=
  if denominator.abs < zeroEpsilon then
    if numerator.abs < zeroEpsilon then .ok .pending else .error .divisionByZero
  else .ok (.derived target (numerator / denominator))

namespace Operator

def forward (op : Operator) (result : VariableId) (left right : Float) :
    Except DeriveFault Derivation :=
  match op with
  | .add => .ok (.derived result (left + right))
  | .sub => .ok (.derived result (left - right))
  | .mul => .ok (.derived result (left * right))
  | .div => divideInto result left right

def solveLeft (op : Operator) (left : VariableId) (result right : Float) :
    Except DeriveFault Derivation :=
  match op with
  | .add => .ok (.derived left (result - right))
  | .sub => .ok (.derived left (result + right))
  | .mul => divideInto left result right
  | .div => .ok (.derived left (result * right))

def solveRight (op : Operator) (right : VariableId) (result left : Float) :
    Except DeriveFault Derivation :=
  match op with
  | .add => .ok (.derived right (result - left))
  | .sub => .ok (.derived right (left - result))
  | .mul => divideInto right result left
  | .div => divideInto right left result

end Operator

namespace Relation

def result : Relation → VariableId
  | .equality left _ => left
  | .arithmetic _ result _ _ => result
  | .custom _ _ _ output => output

def arguments : Relation → List VariableId
  | .equality _ right => [right]
  | .arithmetic _ _ left right => [left, right]
  | .custom _ _ inputs _ => inputs

def operands (r : Relation) : List VariableId := r.result :: r.arguments

def symbol? : Relation → Option String
  | .arithmetic op .. => some op.symbol
  | .equality .. | .custom .. => none

def kindName : Relation → String
  | .equality .. => "Equality"
  | .arithmetic .add .. => "Addition"
  | .arithmetic .sub .. => "Subtraction"
  | .arithmetic .mul .. => "Multiplication"
  | .arithmetic .div .. => "Division"
  | .custom .. => "Custom"

def allKnown (known : VariableId → Option Float) : List VariableId → Option (List Float)
  | [] => some []
  | v :: vs => do return (← known v) :: (← allKnown known vs)

/-- The first case whose inputs are known, whatever value comes out. -/
def solve (known : VariableId → Option Float) : Relation → Except DeriveFault Derivation
  | .equality left right =>
    match known left, known right with
    | _, some r => .ok (.derived left r)
    | some l, none => .ok (.derived right l)
    | none, none => .ok .pending
  | .arithmetic op result left right =>
    match known left, known right, known result with
    | some l, some r, _ => op.forward result l r
    | some l, none, some out => op.solveRight right out l
    | none, some r, some out => op.solveLeft left out r
    | _, _, _ => .ok .pending
  | .custom _ function inputs output =>
    match allKnown known inputs with
    | some values => .ok (.derived output (function values))
    | none => .ok .pending

def derive (r : Relation) (known : VariableId → Option Float) : Except DeriveFault Derivation :=
  match r.solve known with
  | .ok (.derived target value) =>
    if value.isFinite then .ok (.derived target value) else .error .nonFinite
  | other => other

theorem result_mem_operands (r : Relation) : r.result ∈ r.operands := by
  simp [operands]

theorem allKnown_eq_none_iff {known : VariableId → Option Float} {vs : List VariableId} :
    allKnown known vs = none ↔ ∃ v ∈ vs, known v = none := by
  induction vs with
  | nil => simp [allKnown]
  | cons v vs ih =>
    cases hv : known v <;> cases hvs : allKnown known vs <;> simp_all [allKnown]

theorem isFinite_of_derive {r : Relation} {known : VariableId → Option Float}
    {target : VariableId} {value : Float} (h : r.derive known = .ok (.derived target value)) :
    value.isFinite := by
  unfold derive at h
  split at h
  · split at h <;> simp_all
  · simp_all

end Relation

/-- A relation in a network. The marker is the last digest in which it derived a
value; it stops a cascade that comes back to the relation in that digest. -/
structure Relationship where
  relation : Relation
  marker : Option Digest

namespace Relationship

def ofRelation (r : Relation) : Relationship := ⟨r, none⟩

def isMarked (r : Relationship) (d : Digest) : Bool := r.marker = some d

def mark (r : Relationship) (m : Option Digest) : Relationship := { r with marker := m }

end Relationship

end ConstraintNet
