import ConstraintNet.Network.Basic

/-!
# Teardown

Destroying a variable removes its relationships. An operand of a removed
relationship that nothing holds any more is an orphan and is destroyed as well.
A variable is doomed from the moment its destruction begins, so teardown enters
each one once and is no deeper than the number of variables.
-/

set_option autoImplicit false

namespace ConstraintNet

namespace Network

def removeRelationship (net : Network) (r : RelationshipId) : Option (Relationship × Network) := do
  let rel ← net.relationshipAt r
  return (rel, { net with
    vars := rel.relation.operands.foldl
      (fun xs v => xs.modify v.index (·.detach r)) net.vars
    relationships := net.relationships.erase r.index
    order := net.order.filter (· ≠ r)
    definitions := net.definitions.filter (·.2 ≠ r) })

/-- An intermediate without a pinned value that only the relationship producing
it still touches. -/
def isUnused (net : Network) (v : VariableId) (x : Variable) : Bool :=
  match x.kind, x.relationships with
  | .intermediate, [only] =>
    !x.holding.isPinned && (net.relationshipAt only).any (·.relation.result = v)
  | _, _ => false

def isOrphan (net : Network) (v : VariableId) : Bool :=
  (net.variableAt v).any fun x => x.isLoose || net.isUnused v x

def dropVariable (net : Network) (v : VariableId) : Network :=
  match net.variableAt v with
  | none => net
  | some x => { net with
    vars := net.vars.erase v.index
    registry := if net.lookup x.name = some v then net.registry.erase x.name else net.registry
    definitions := net.definitions.erase v }

end Network

structure Teardown where
  network : Network
  doomed : List VariableId

namespace Teardown

def collectWith (destroy : VariableId → Teardown → Teardown) (operands : List VariableId)
    (t : Teardown) : Teardown :=
  operands.foldl
    (fun t v => if v ∉ t.doomed && t.network.isOrphan v then destroy v t else t) t

def releaseWith (destroy : VariableId → Teardown → Teardown) (t : Teardown)
    (r : RelationshipId) : Teardown :=
  match t.network.removeRelationship r with
  | none => t
  | some (rel, net) => collectWith destroy rel.relation.operands { t with network := net }

/-- Removes every relationship of a variable and then the variable, at most
`depth` variables deep. -/
def destroyWithin : (depth : Nat) → VariableId → Teardown → Teardown
  | 0, _, t => t
  | depth + 1, v, t =>
    if v ∈ t.doomed then t
    else
      let t := { t with doomed := v :: t.doomed }
      match t.network.variableAt v with
      | none => t
      | some x =>
        let t := x.relationships.foldl (releaseWith (destroyWithin depth)) t
        { t with network := t.network.dropVariable v }

end Teardown

namespace Network

def destroyVariable (net : Network) (v : VariableId) : Bool × Network :=
  match net.variableAt v with
  | none => (false, net)
  | some _ => (true, (Teardown.destroyWithin net.variableCount v ⟨net, []⟩).network)

def destroy (net : Network) (name : String) : Bool × Network :=
  match net.lookup name with
  | none => (false, net)
  | some v => net.destroyVariable v

def undefine (net : Network) (v : VariableId) : Network :=
  match net.definitions.find? v with
  | none => net
  | some r =>
    let net := { net with definitions := net.definitions.erase v }
    (Teardown.releaseWith (Teardown.destroyWithin net.variableCount) ⟨net, [v]⟩ r).network

def clear (net : Network) (name : String) : Network :=
  match net.lookup name with
  | none => net
  | some v => (net.undefine v).updateVariable v Variable.clear

def reset (net : Network) : Network :=
  { net with
    vars := net.vars.map Variable.clear
    relationships := net.relationships.map (·.mark none) }

end Network

end ConstraintNet
