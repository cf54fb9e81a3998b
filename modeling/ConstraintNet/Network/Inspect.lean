import ConstraintNet.Network.Basic
import ConstraintNet.Text.Quoted

/-!
# Diagnostic texts

Every field of a variable, a relationship or a network by name, on one line.
-/

set_option autoImplicit false

namespace ConstraintNet.Inspect

/-- Exponents only outside of `1e-4` to `1e16`, and a fraction in whole numbers. -/
def layout : Decimal.Layout where
  positional e := -4 ≤ e && e < 16
  wholeFraction := ['0']
  plus := []
  tie := .up

def ofFloat (x : Float) : String := layout.text x

def ofOption {α : Type} (f : α → String) : Option α → String
  | none => "None"
  | some x => "Some(" ++ f x ++ ")"

def ofBool (b : Bool) : String := if b then "true" else "false"

def ofList {α : Type} (f : α → String) (xs : List α) : String :=
  "[" ++ ", ".intercalate (xs.map f) ++ "]"

def ofTable {κ α : Type} (key : κ → String) (f : α → String) (t : Table κ α) : String :=
  "\x7b" ++ ", ".intercalate (t.entries.map fun e => key e.1 ++ ": " ++ f e.2) ++ "\x7d"

def record (name : String) (fields : List (String × String)) (more : String) : String :=
  name ++ " \x7b " ++ ", ".intercalate (fields.map fun f => f.1 ++ ": " ++ f.2) ++ more ++ " \x7d"

def ofVariableId (v : VariableId) : String := "VariableId(" ++ v.index.repr ++ ")"

def ofRelationshipId (r : RelationshipId) : String := "RelationshipId(" ++ r.index.repr ++ ")"

def ofKind : Kind → String
  | .named => "Named"
  | .intermediate => "Intermediate"
  | .constant => "Constant"

def ofState : State → String
  | .unset => "Unset"
  | .explicit => "Explicit"
  | .solved => "Solved"
  | .environment => "Environment"

def ofVariable (x : Variable) : String :=
  record "Variable" [("name", Text.quote x.name), ("kind", ofKind x.kind),
    ("value", ofOption ofFloat x.holding.value?), ("state", ofState x.holding.state),
    ("solved_digest", ofOption Nat.repr x.holding.digest?),
    ("relationships", ofList ofRelationshipId x.relationships),
    ("callbacks", x.watches.length.repr)] ""

def ofRelation (r : Relation) : String :=
  match r with
  | .custom name _ inputs output =>
    record "Custom" [("name", Text.quote name), ("inputs", ofList ofVariableId inputs),
      ("output", ofVariableId output)] ""
  | _ => r.kindName ++ "(" ++ ", ".intercalate (r.operands.map VariableId.label) ++ ")"

def ofRelationship (r : Relationship) : String :=
  record "Relationship" [("relation", ofRelation r.relation),
    ("solved_digest", ofOption Nat.repr r.marker)] ""

def ofConfig (c : Config) : String :=
  record "SystemConfig" [("tolerance", ofFloat c.tolerance), ("fixpoint", ofBool c.fixpoint),
    ("intermediate_prefix", Text.quote c.stem)] ""

def ofFunctionEntry (f : FunctionEntry) : String :=
  record "FunctionEntry" [("arity", ofOption Nat.repr f.arity)] ", .."

def ofNetwork (net : Network) : String :=
  record "System" [("config", ofConfig net.config),
    ("variables", ofList (ofOption ofVariable) net.vars.slots.toList),
    ("by_name", ofTable Text.quote ofVariableId net.registry),
    ("relationships", ofList (ofOption ofRelationship) net.relationships.slots.toList),
    ("order", ofList ofRelationshipId net.order),
    ("definitions", ofTable ofVariableId ofRelationshipId net.definitions),
    ("functions", ofTable Text.quote ofFunctionEntry net.functions),
    ("next_intermediate", net.nextIntermediate.repr), ("last_digest", net.lastDigest.repr)] ""

def ofOperator : Operator → String
  | .add => "Add"
  | .sub => "Sub"
  | .mul => "Mul"
  | .div => "Div"

end ConstraintNet.Inspect
