import ConstraintNet.Operator

/-!
# Expressions

An operator stays a symbol until the expression enters a network, where an
unknown symbol is refused. Expressions built by a host need not be well formed
either: names may be empty and numbers infinite.
-/

set_option autoImplicit false

namespace ConstraintNet

inductive Expr where
  | ident (name : String)
  | number (value : Float)
  | op (symbol : String) (left right : Expr)
  | call (name : String) (params : List Expr)

end ConstraintNet
