import ConstraintNet.Network.Lowering
import ConstraintNet.Network.Propagation

/-!
# Calls

Everything a host can do to a network is a call. A call that fails may have done
part of its work; the network is then as the failure left it.
-/

set_option autoImplicit false

namespace ConstraintNet

inductive Call where
  | declare (name : String)
  | equals (result value : Operand)
  | arithmetic (op : Operator) (result left right : Operand)
  | register (name : String) (function : HostFunction) (arity : Option Nat)
  | call (name : String) (output : Operand) (params : List Operand)
  | assign (name : String) (value : Float)
  | assignEnvironment (name : String) (value : Float)
  | write (name : String) (value : Float) (d : Digest)
  | watch (name : String) (w : WatchId)
  | set (name : String) (setting : Setting)
  | evaluate (e : Expr)
  | evaluateText (text : String)
  | solve (d : Digest)
  /-- Solves the digest after the last one seen. -/
  | next
  | destroy (name : String)
  | destroyVariable (v : VariableId)
  | clear (name : String)
  | reset

inductive Answer where
  | done
  | flag (b : Bool)
  | handle (v : VariableId)
  | relationship (r : RelationshipId)
  | report (r : Report)

structure Outcome where
  result : Except Fault Answer
  network : Network
  /-- The watches it fired, oldest first. -/
  fired : List Firing

namespace Outcome

def ofBuild {α : Type} (answer : α → Answer) (b : Build α) (net : Network) : Outcome :=
  match b.run net with
  | .ok a net => ⟨.ok (answer a), net, []⟩
  | .error fault net => ⟨.error fault, net, []⟩

def ofPropagation {α : Type} (answer : α → Answer) (p : Propagation α) (net : Network) :
    Outcome :=
  match p.run ⟨net, []⟩ with
  | .ok a run => ⟨.ok (answer a), run.network, run.fired⟩
  | .error fault run => ⟨.error fault, run.network, run.fired⟩

end Outcome

namespace Network

def write (name : String) (value : Float) (d : Digest) : Propagation Bool := do
  if !value.isFinite then throw (.invalidValue (.cannotHold name value))
  let (v, net) := (← Propagation.network).declare name
  Propagation.update fun _ => { net with lastDigest := max net.lastDigest d }
  Propagation.write d v value

def watch (name : String) (w : WatchId) (net : Network) : Network :=
  let (v, net) := net.declare name
  net.updateVariable v (·.watch w)

def perform (net : Network) : Call → Outcome
  | .declare name => .ofBuild .handle (modifyGet (Network.declare name)) net
  | .equals result value => .ofBuild .relationship (Build.equals result value) net
  | .arithmetic op result left right =>
    .ofBuild .relationship (Build.arithmetic op result left right) net
  | .register name function arity => .ofBuild (fun _ => .done) (Build.register name function arity) net
  | .call name output params => .ofBuild .relationship (Build.call name output params) net
  | .assign name value => .ofBuild (fun _ => .done) (Build.assign name value .explicit) net
  | .assignEnvironment name value =>
    .ofBuild (fun _ => .done) (Build.assign name value .environment) net
  | .write name value d => .ofPropagation .flag (write name value d) net
  | .watch name w => ⟨.ok .done, net.watch name w, []⟩
  | .set name setting => .ofBuild (fun _ => .done) (Build.redefine name setting) net
  | .evaluate e => .ofBuild .handle (Build.evaluate e) net
  | .evaluateText text => .ofBuild .handle (Build.evaluateText text) net
  | .solve d => .ofPropagation .report (Propagation.solve d) net
  | .next => .ofPropagation .report (Propagation.solve (net.lastDigest + 1)) net
  | .destroy name =>
    let (found, net) := net.destroy name
    ⟨.ok (.flag found), net, []⟩
  | .destroyVariable v =>
    let (found, net) := net.destroyVariable v
    ⟨.ok (.flag found), net, []⟩
  | .clear name => ⟨.ok .done, net.clear name, []⟩
  | .reset => ⟨.ok .done, net.reset, []⟩

/-- The network after a sequence of calls, failed ones included. -/
def after (net : Network) (calls : List Call) : Network :=
  calls.foldl (fun net c => (net.perform c).network) net

theorem after_append (net : Network) (xs ys : List Call) :
    net.after (xs ++ ys) = (net.after xs).after ys :=
  List.foldl_append

end Network

end ConstraintNet
