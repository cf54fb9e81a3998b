import ConstraintNet.Network.Construction
import ConstraintNet.Network.Teardown
import ConstraintNet.Postfix

/-!
# Lowering of expressions

An expression becomes relationships: names resolve to variables, numbers to
constants, and every operation and call gets an intermediate variable for its
result, made after those of its operands. The whole expression is checked before
any part of it is lowered.
-/

set_option autoImplicit false

namespace ConstraintNet

namespace Network

mutual

/-- Whether a network can take in an expression. The first flaw from the top, and
from left to right, is the one reported. -/
def check (net : Network) : Expr → Except Fault Unit
  | .ident name => if name = "" then .error (.malformed .emptyIdentifier) else .ok ()
  | .number value =>
    if value.isFinite then .ok () else .error (.malformed (.nonFiniteNumber value))
  | .op symbol left right =>
    match Operator.ofSymbol? symbol with
    | none => .error (.malformed (.unknownOperator symbol))
    | some _ => do
      net.check left
      net.check right
  | .call name params => do
    discard (net.function name params.length)
    net.checkAll params

def checkAll (net : Network) : List Expr → Except Fault Unit
  | [] => .ok ()
  | e :: es => do
    net.check e
    net.checkAll es

end

end Network

inductive Setting where
  | number (value : Float)
  | expression (text : String)

namespace Build

mutual

def lower : Expr → Build VariableId
  | .ident name => modifyGet (Network.declare name)
  | .number value => literal value
  | .op symbol left right =>
    match Operator.ofSymbol? symbol with
    | none => throw (.malformed (.unknownOperator symbol))
    | some op => do
      let left ← lower left
      let right ← lower right
      let result ← modifyGet Network.intermediate
      discard (modifyGet (Network.relate (.arithmetic op result left right)))
      return result
  | .call name params => do
    let inputs ← lowerAll params
    let output ← modifyGet Network.intermediate
    let f ← lookupFunction name inputs.length
    discard (modifyGet (Network.relate (.custom name f inputs output)))
    return output

def lowerAll : List Expr → Build (List VariableId)
  | [] => return []
  | e :: es => do
    let v ← lower e
    return v :: (← lowerAll es)

end

def ensure (e : Expr) : Build Unit := do
  match (← get).check e with
  | .ok () => return ()
  | .error fault => throw fault

def evaluate (e : Expr) : Build VariableId := do
  ensure e
  lower e

def parse (text : String) : Build Expr :=
  match Expr.parse text with
  | .ok e => return e
  | .error e => throw (.malformed e)

def evaluateText (text : String) : Build VariableId := do
  evaluate (← parse text)

/-- Gives a variable a new value or definition in place of the old one. Text is
parsed and checked before the old definition is dropped. -/
def redefine (name : String) (setting : Setting) : Build Unit := do
  if name = "" then throw (.invalidValue .emptyName)
  match setting with
  | .number value =>
    if !value.isFinite then throw (.invalidValue (.cannotHold name value))
    modify (·.clear name)
    assign name value .explicit
  | .expression text =>
    if Text.isBlankText text then throw (.invalidValue (.emptyExpression name))
    let e ← parse text
    ensure e
    modify (·.clear name)
    let target ← modifyGet (Network.declare name)
    let root ← lower e
    let r ← modifyGet (Network.relate (.equality target root))
    modify fun net => { net with definitions := net.definitions.insert target r }

end Build

end ConstraintNet
