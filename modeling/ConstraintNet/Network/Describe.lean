import ConstraintNet.Network.Basic
import ConstraintNet.Text.Occurrence

/-!
# Relationships as text

A relationship is shown as an equation between the names of its operands. A
missing operand or relationship is shown as its handle in angle brackets.
-/

set_option autoImplicit false

namespace ConstraintNet.Network

def label (net : Network) (v : VariableId) : String :=
  match net.variableAt v with
  | some x => x.name
  | none => "<" ++ v.label ++ ">"

def equation (net : Network) : Relation → String
  | .equality left right => net.label left ++ " = " ++ net.label right
  | .arithmetic op result left right =>
    net.label result ++ " = " ++ net.label left ++ " " ++ op.symbol ++ " " ++ net.label right
  | .custom name _ inputs output =>
    net.label output ++ " = " ++ name ++ "(" ++ ", ".intercalate (inputs.map net.label) ++ ")"

def render (net : Network) (r : RelationshipId) : String :=
  match net.relationshipAt r with
  | some rel => net.equation rel.relation
  | none => "<" ++ r.label ++ ">"

def mentions (net : Network) (needle : String) (r : RelationshipId) : Bool :=
  match net.relationshipAt r with
  | some rel => rel.relation.operands.any fun v => Text.occursIn needle.toList (net.label v).toList
  | none => false

/-- One relationship a line, in order; with a filter only those that mention it. -/
def describe (net : Network) (filter : Option String) : String :=
  let shown := match filter with
    | some needle => net.order.filter (net.mentions needle)
    | none => net.order
  "\n".intercalate (shown.map net.render)

end ConstraintNet.Network
