import ConstraintNet.Expr
import ConstraintNet.SyntaxError

/-!
# Postfix order

Infix tokens are put into postfix order with a stack of operators and open
parentheses. Postfix tokens are folded into an expression with a stack of
operands. Operators of one precedence group to the left.
-/

set_option autoImplicit false

namespace ConstraintNet.Postfix

inductive Waiting where
  | operator (op : Operator)
  | openParen

/-- The operators on top that bind at least as tightly as a new one, and the rest. -/
def popTighter (op : Operator) : List Waiting → List Token × List Waiting
  | .operator top :: stack =>
    if top.precedence < op.precedence then ([], .operator top :: stack)
    else
      let (popped, rest) := popTighter op stack
      (.operator top :: popped, rest)
  | stack => ([], stack)

def popGroup? : List Waiting → Option (List Token × List Waiting)
  | [] => none
  | .openParen :: stack => some ([], stack)
  | .operator op :: stack => do
    let (popped, rest) ← popGroup? stack
    return (.operator op :: popped, rest)

def popAll? : List Waiting → Option (List Token)
  | [] => some []
  | .openParen :: _ => none
  | .operator op :: stack => do return .operator op :: (← popAll? stack)

def reorderFrom (whole : List Token) (stack : List Waiting) :
    List Token → Except SyntaxError (List Token)
  | [] =>
    match popAll? stack with
    | some popped => .ok popped
    | none => .error (.unmatchedOpen whole)
  | .number v :: rest => do return .number v :: (← reorderFrom whole stack rest)
  | .identifier name :: rest => do return .identifier name :: (← reorderFrom whole stack rest)
  | .operator op :: rest => do
    let (popped, stack) := popTighter op stack
    return popped ++ (← reorderFrom whole (.operator op :: stack) rest)
  | .openParen :: rest => reorderFrom whole (.openParen :: stack) rest
  | .closeParen :: rest =>
    match popGroup? stack with
    | some (popped, stack) => do return popped ++ (← reorderFrom whole stack rest)
    | none => .error (.unmatchedClose whole)

/-- The postfix order of infix tokens. Only parentheses are checked. -/
def ofInfix (tokens : List Token) : Except SyntaxError (List Token) :=
  reorderFrom tokens [] tokens

def foldFrom (whole : List Token) : List Expr → List Token → Except SyntaxError Expr
  | [root], [] => .ok root
  | [], [] => .error (.emptyExpression "")
  | _ :: _ :: _, [] => .error (.missingOperator whole)
  | operands, .number v :: rest => foldFrom whole (.number v :: operands) rest
  | operands, .identifier name :: rest => foldFrom whole (.ident name :: operands) rest
  | right :: left :: operands, .operator op :: rest =>
    foldFrom whole (.op op.symbol left right :: operands) rest
  | _, .operator op :: _ => .error (.missingOperand op whole)
  | _, .openParen :: _ => .error (.strayParenthesis whole)
  | _, .closeParen :: _ => .error (.strayParenthesis whole)

def fold (tokens : List Token) : Except SyntaxError Expr := foldFrom tokens [] tokens

end ConstraintNet.Postfix

namespace ConstraintNet.Expr

def parse (s : String) : Except SyntaxError Expr :=
  if Text.isBlankText s then .error (.emptyExpression s)
  else Postfix.ofInfix (Token.scan s) >>= Postfix.fold

end ConstraintNet.Expr
