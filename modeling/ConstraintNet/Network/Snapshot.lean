import ConstraintNet.Network.Describe
import ConstraintNet.Network.Propagation

/-!
# Snapshots

The variables of a network, constants left out, in the order in which they were
made, and its relationships as text.
-/

set_option autoImplicit false

namespace ConstraintNet

structure VariableSnapshot where
  name : String
  kind : Kind
  value : Option Float
  state : State

structure Snapshot where
  vars : List VariableSnapshot
  relationships : List String

def Variable.snapshot (x : Variable) : VariableSnapshot :=
  ⟨x.name, x.kind, x.holding.value?, x.holding.state⟩

def Snapshot.find? (s : Snapshot) (name : String) : Option VariableSnapshot :=
  s.vars.find? (·.name = name)

def Network.snapshot (net : Network) : Snapshot where
  vars := (net.vars.live.filter (!·.isConstant)).map Variable.snapshot
  relationships := net.order.map net.render

end ConstraintNet
