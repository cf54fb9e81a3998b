import ConstraintNet.Arena
import ConstraintNet.Fault
import ConstraintNet.Relation
import ConstraintNet.Table

/-!
# Networks

A network owns variables and the relationships between them. Names of variables
are registered, relationships keep the order in which they were made, and a
variable may have a definition, which is the equality that gives it an expression.
-/

set_option autoImplicit false

namespace ConstraintNet

/-- A registered host function; without an arity it takes any number of arguments. -/
structure FunctionEntry where
  function : HostFunction
  arity : Option Nat

structure Network where
  config : Config
  vars : Arena Variable
  registry : Table String VariableId
  relationships : Arena Relationship
  /-- The relationships present, oldest first. Solving follows this order. -/
  order : List RelationshipId
  definitions : Table VariableId RelationshipId
  functions : Table String FunctionEntry
  /-- The least number not yet tried for the name of an intermediate. -/
  nextIntermediate : Nat
  /-- The highest digest seen. -/
  lastDigest : Digest

/-- A call that may fail. What it did before the failure stays done. -/
abbrev Build := EStateM Fault Network

namespace Network

def empty (config : Config) : Network :=
  ⟨config, .empty, .empty, .empty, [], .empty, .empty, 0, 0⟩

def create (config : Config) : Except Fault Network :=
  match config.flaw? with
  | some flaw => .error (.invalidConfig flaw)
  | none => .ok (empty config)

def variableAt (net : Network) (v : VariableId) : Option Variable := net.vars.get? v.index

def relationshipAt (net : Network) (r : RelationshipId) : Option Relationship :=
  net.relationships.get? r.index

def lookup (net : Network) (name : String) : Option VariableId := net.registry.find? name

def has (net : Network) (name : String) : Bool := net.registry.contains name

def hasFunction (net : Network) (name : String) : Bool := net.functions.contains name

def valueOf (net : Network) (v : VariableId) : Option Float := do
  (← net.variableAt v).holding.value?

def value (net : Network) (name : String) : Option Float := do net.valueOf (← net.lookup name)

def state (net : Network) (name : String) : Option State := do
  return (← net.variableAt (← net.lookup name)).holding.state

def valueAt (net : Network) (d : Digest) (v : VariableId) : Option Float := do
  (← net.variableAt v).holding.valueAt d

def variableCount (net : Network) : Nat := net.vars.live.length

def relationshipCount (net : Network) : Nat := net.order.length

def updateVariable (net : Network) (v : VariableId) (f : Variable → Variable) : Network :=
  { net with vars := net.vars.modify v.index f }

def updateRelationship (net : Network) (r : RelationshipId) (f : Relationship → Relationship) :
    Network :=
  { net with relationships := net.relationships.modify r.index f }

def addVariable (net : Network) (x : Variable) : VariableId × Network :=
  (⟨net.vars.next⟩, { net with vars := net.vars.push x })

def addNamed (net : Network) (x : Variable) : VariableId × Network :=
  let (v, net) := net.addVariable x
  (v, { net with registry := net.registry.insert x.name v })

def declare (name : String) (net : Network) : VariableId × Network :=
  match net.lookup name with
  | some v => (v, net)
  | none => net.addNamed (.blank name .named)

def firstFree (taken : String → Bool) (name : Nat → String) : (tries : Nat) → Nat → Nat
  | 0, n => n
  | tries + 1, n => if taken (name n) then firstFree taken name tries (n + 1) else n

def intermediateName (net : Network) (n : Nat) : String := net.config.stem ++ n.repr

/-- Makes the variable of a subexpression. Registered names are passed over; there
are only so many of them, so the search ends at a free one. -/
def intermediate (net : Network) : VariableId × Network :=
  let n := firstFree net.has net.intermediateName net.registry.entries.length net.nextIntermediate
  { net with nextIntermediate := n + 1 }.addNamed (.blank (net.intermediateName n) .intermediate)

def relate (relation : Relation) (net : Network) : RelationshipId × Network :=
  let r : RelationshipId := ⟨net.relationships.next⟩
  (r, { net with
    vars := relation.operands.foldl (fun xs v => xs.modify v.index (·.attach r)) net.vars
    relationships := net.relationships.push (.ofRelation relation)
    order := net.order ++ [r] })

@[simp] theorem relationshipAt_relate (relation : Relation) (net : Network) :
    (net.relate relation).2.relationshipAt (net.relate relation).1 =
      some (.ofRelation relation) := by
  simp [relationshipAt, relate, Arena.get?_push]

theorem lookup_declare (name : String) (net : Network) :
    (net.declare name).2.lookup name = some (net.declare name).1 := by
  unfold declare
  split
  · assumption
  · simp [lookup, addNamed, addVariable, Table.find?_insert, Variable.blank]

end Network

end ConstraintNet
