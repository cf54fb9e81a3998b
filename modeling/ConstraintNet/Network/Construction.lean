import ConstraintNet.Network.Basic

/-!
# Construction of relationships

Operands are given by name, as a literal or by handle, and are resolved from left
to right. A name that is not there yet is declared, a literal becomes a constant
of its own. If a later operand is refused, what the earlier ones made remains.
-/

set_option autoImplicit false

namespace ConstraintNet

inductive Operand where
  | name (name : String)
  | literal (value : Float)
  | handle (v : VariableId)

def Network.function (net : Network) (name : String) (count : Nat) : Except Fault HostFunction :=
  match net.functions.find? name with
  | none => .error (.unknownFunction name)
  | some entry =>
    match entry.arity with
    | none => .ok entry.function
    | some arity =>
      if arity = count then .ok entry.function
      else .error (.malformed (.wrongArity name arity count))

namespace Build

/-- A constant for a finite number. It is not registered under its name. -/
def literal (value : Float) : Build VariableId := do
  if !value.isFinite then throw (.invalidValue (.nonFiniteLiteral value))
  modifyGet (·.addVariable (.literal (Decimal.text value) value))

def resolve : Operand → Build VariableId
  | .name name => do
    if name = "" then throw (.invalidValue .emptyName)
    modifyGet (Network.declare name)
  | .literal value => literal value
  | .handle v => do
    if ((← get).variableAt v).isNone then throw (.unknownVariable v)
    return v

def equals (result value : Operand) : Build RelationshipId := do
  let left ← resolve result
  let right ← resolve value
  modifyGet (Network.relate (.equality left right))

def arithmetic (op : Operator) (result left right : Operand) : Build RelationshipId := do
  let result ← resolve result
  let left ← resolve left
  let right ← resolve right
  modifyGet (Network.relate (.arithmetic op result left right))

def register (name : String) (function : HostFunction) (arity : Option Nat) : Build Unit := do
  if (← get).hasFunction name then throw (.duplicateFunction name)
  modify fun net => { net with functions := net.functions.insert name ⟨function, arity⟩ }

def lookupFunction (name : String) (count : Nat) : Build HostFunction := do
  match (← get).function name count with
  | .ok f => return f
  | .error fault => throw fault

def call (name : String) (output : Operand) (params : List Operand) : Build RelationshipId := do
  let f ← lookupFunction name params.length
  let output ← resolve output
  let inputs ← params.mapM resolve
  modifyGet (Network.relate (.custom name f inputs output))

/-- Pins a value by hand. Nothing is propagated until the next digest. -/
def assign (name : String) (value : Float) (source : State) : Build Unit := do
  if name = "" then throw (.invalidValue .emptyName)
  if !value.isFinite then throw (.invalidValue (.cannotHold name value))
  let v ← modifyGet (Network.declare name)
  modify (·.updateVariable v (·.assign value source))

end Build

end ConstraintNet
