import ConstraintNet.Token

/-!
# Syntax errors

Why a text, a list of tokens or a tree is no expression, with the fragment that a
message shows for it.
-/

set_option autoImplicit false

namespace ConstraintNet

inductive SyntaxError where
  | unmatchedClose (tokens : List Token)
  | unmatchedOpen (tokens : List Token)
  | missingOperand (op : Operator) (tokens : List Token)
  | strayParenthesis (tokens : List Token)
  | missingOperator (tokens : List Token)
  | emptyExpression (text : String)
  | emptyIdentifier
  | nonFiniteNumber (value : Float)
  | unknownOperator (symbol : String)
  | wrongArity (function : String) (arity count : Nat)

namespace SyntaxError

def what : SyntaxError → String
  | .unmatchedClose _ => "Unmatched ')'"
  | .unmatchedOpen _ => "Unmatched '('"
  | .missingOperand op _ => "Missing operand for '" ++ op.symbol ++ "'"
  | .strayParenthesis _ => "Parenthesis in postfix input"
  | .missingOperator _ => "Missing operator between operands"
  | .emptyExpression _ => "Empty expression"
  | .emptyIdentifier => "Empty identifier"
  | .nonFiniteNumber _ => "Non-finite number"
  | .unknownOperator symbol => "Unknown operator '" ++ symbol ++ "'"
  | .wrongArity function arity count =>
    function ++ " expects " ++ arity.repr ++ " argument(s), got " ++ count.repr

def fragment : SyntaxError → String
  | .unmatchedClose tokens | .unmatchedOpen tokens | .missingOperand _ tokens
  | .strayParenthesis tokens | .missingOperator tokens => Token.line tokens
  | .emptyExpression text => text
  | .emptyIdentifier => ""
  | .nonFiniteNumber value => Decimal.text value
  | .unknownOperator symbol => symbol
  | .wrongArity function _ _ => function

def parseMessage (e : SyntaxError) : String :=
  "Parse error near '" ++ e.fragment ++ "': " ++ e.what

def message (e : SyntaxError) : String :=
  "Syntax error: " ++ e.what ++ " (near '" ++ e.fragment ++ "')"

end SyntaxError

end ConstraintNet
