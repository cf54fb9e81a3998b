import ConstraintNet.Config
import ConstraintNet.SyntaxError
import ConstraintNet.Variable

/-!
# Faults

Why a network refuses a call, or stops solving.
-/

set_option autoImplicit false

namespace ConstraintNet

inductive InvalidValue where
  | emptyName
  | cannotHold (name : String) (value : Float)
  | nonFiniteLiteral (value : Float)
  | emptyExpression (name : String)
  | nonFiniteResult (relationship : String)

inductive Fault where
  | contradiction (c : Contradiction)
  | divisionByZero (relationship : String)
  | malformed (e : SyntaxError)
  | unknownFunction (name : String)
  | duplicateFunction (name : String)
  | invalidValue (v : InvalidValue)
  | unknownVariable (id : VariableId)
  | invalidConfig (flaw : Config.Flaw)

def Contradiction.message (c : Contradiction) : String :=
  "Contradiction on '" ++ c.name ++ "': holds " ++ Decimal.text c.held
    ++ ", attempted " ++ Decimal.text c.attempted

def InvalidValue.message : InvalidValue → String
  | .emptyName => "empty variable name"
  | .cannotHold name v => "'" ++ name ++ "' cannot hold " ++ Decimal.text v
  | .nonFiniteLiteral v => "constant " ++ Decimal.text v ++ " is not a finite number"
  | .emptyExpression name => "empty expression for '" ++ name ++ "'"
  | .nonFiniteResult text => "`" ++ text ++ "` produced a non-finite value"

namespace Fault

def message : Fault → String
  | .contradiction c => c.message
  | .divisionByZero text => "Division by zero while solving `" ++ text ++ "`"
  | .malformed e => e.message
  | .unknownFunction name => "Unknown function: " ++ name
  | .duplicateFunction name => "Function already registered: " ++ name
  | .invalidValue v => "Invalid value: " ++ v.message
  | .unknownVariable id => "Unknown variable: " ++ id.label
  | .invalidConfig flaw => "Invalid configuration: " ++ flaw.message

/-- Values in conflict, with a division by zero among them. -/
def isContradiction : Fault → Bool
  | .contradiction _ | .divisionByZero _ => true
  | _ => false

end Fault

end ConstraintNet
