import ConstraintNet.Expr
import ConstraintNet.Json.Standard

/-!
# Expressions as JSON

An expression is a record whose `type` names its form. A text is read with everything in
it, and the expressions in it lie no deeper inside of each other than the library reads.
-/

set_option autoImplicit false

namespace ConstraintNet

namespace Expr

inductive Form where
  | ident
  | number
  | op
  | call

def forms : Forms Form where
  all := [.ident, .number, .op, .call]
  word
    | .ident => "ident"
    | .number => "number"
    | .op => "op"
    | .call => "func_call"
  mem_all form := by cases form <;> simp
  injective form form' := by cases form <;> cases form' <;> simp
  tag := "type"
  fields
    | .ident | .number => ["value"]
    | .op => ["operator", "left", "right"]
    | .call => ["name", "params"]
  nodup form := by cases form <;> decide

mutual

def data : Expr → Data
  | .ident name => forms.record .ident [.text name]
  | .number value => forms.record .number [.number value]
  | .op symbol left right => forms.record .op [.text symbol, left.data, right.data]
  | .call name params => forms.record .call [.text name, .list (dataAll params)]

def dataAll : List Expr → List Data
  | [] => []
  | e :: es => e.data :: dataAll es

end

end Expr

namespace JsonLibrary

variable (lib : JsonLibrary)

/-- The expression that a tree denotes, with at most `levels` expressions inside of each
other. -/
def exprWithin? : (levels : Nat) → (nested : Bool) → lib.Tree → Option Expr
  | 0, _, _ => none
  | levels + 1, nested, t => do
    match ← lib.formed? Expr.forms nested t with
    | (.ident, [name]) => return .ident (← lib.text? name)
    | (.number, [value]) => return .number (← lib.number? value)
    | (.op, [symbol, left, right]) =>
      return .op (← lib.text? symbol) (← exprWithin? levels true left)
        (← exprWithin? levels true right)
    | (.call, [name, params]) =>
      return .call (← lib.text? name) (← (← lib.list? params).mapM (exprWithin? levels true))
    | _ => none

def writeExpr (e : Expr) : String := lib.print e.data

/-- A text that is no expression comes back as the fragment of the error. -/
def readExpr (text : String) : Except String Expr :=
  match (lib.readAll? text).bind (lib.exprWithin? lib.limit false) with
  | some e => .ok e
  | none => .error text

end JsonLibrary

namespace Expr

def toJson (e : Expr) : String := Json.library.writeExpr e

def ofJson? (text : String) : Option Expr := (Json.library.readExpr text).toOption

end Expr

end ConstraintNet
