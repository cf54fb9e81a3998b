import Mathlib.Logic.Relation
import ConstraintNet.Network.Call
import ConstraintNet.Proofs.Integrity

/-!
# Edits

Whatever a host asks for, a network changes in elementary edits only, each made
under a guard. What every edit keeps, every call keeps, also one that fails
half way.
-/

set_option autoImplicit false

namespace ConstraintNet.Network

inductive Construct : Network → Network → Prop
  | constant (net : Network) (value : Float) (hf : value.isFinite) :
    Construct net (net.addVariable (.literal (Decimal.text value) value)).2
  | named (net : Network) (name : String) (hfree : net.lookup name = none) :
    Construct net (net.addNamed (.blank name .named)).2
  | intermediate (net : Network) (n : Nat) (hle : net.nextIntermediate ≤ n)
      (hfree : net.lookup (net.intermediateName n) = none) :
    Construct net ({ net with nextIntermediate := n + 1 }.addNamed
      (.blank (net.intermediateName n) .intermediate)).2
  | relate (net : Network) (relation : Relation)
      (hlive : ∀ v ∈ relation.operands, (net.variableAt v).isSome) :
    Construct net (net.relate relation).2

inductive Discard : Network → Network → Prop
  | remove {net net' : Network} {r : RelationshipId} {rel : Relationship}
      (h : net.removeRelationship r = some (rel, net')) : Discard net net'
  | drop (net : Network) (v : VariableId) (hfree : ∀ r, ¬ net.Touches r v) :
    Discard net (net.dropVariable v)

inductive Edit : Network → Network → Prop
  | construct {net net' : Network} (h : Construct net net') : Edit net net'
  | discard {net net' : Network} (h : Discard net net') : Edit net net'
  | define (net : Network) (v : VariableId) (r : RelationshipId)
      (hv : (net.variableAt v).isSome)
      (hr : ∃ rel right, net.relationshipAt r = some rel ∧ rel.relation = .equality v right) :
    Edit net { net with definitions := net.definitions.insert v r }
  | undefine (net : Network) (v : VariableId) :
    Edit net { net with definitions := net.definitions.erase v }
  | register (net : Network) (name : String) (entry : FunctionEntry)
      (hfree : net.functions.find? name = none) :
    Edit net { net with functions := net.functions.insert name entry }
  | hold (net : Network) (v : VariableId) (h : Holding) (hs : h.state ≠ .solved)
      (hf : ∀ value, h.value? = some value → value.isFinite) :
    Edit net (net.updateVariable v (·.hold h))
  | watch (net : Network) (v : VariableId) (w : WatchId) :
    Edit net (net.updateVariable v (·.watch w))
  /-- A derived value enters a variable that is unknown in the digest. -/
  | settle (net : Network) {v : VariableId} {x : Variable} {value : Float} {d : Digest}
      (hx : net.variableAt v = some x) (hu : x.holding.valueAt d = none)
      (hf : value.isFinite) (hd : d ≤ net.lastDigest) :
    Edit net (net.updateVariable v fun _ => { x with holding := .solved value (some d) })
  | mark (net : Network) (r : RelationshipId) (m : Option Digest)
      (hm : ∀ d, m = some d → d ≤ net.lastDigest) :
    Edit net (net.updateRelationship r (·.mark m))
  | see (net : Network) (d : Digest) : Edit net { net with lastDigest := max net.lastDigest d }
  | reset (net : Network) : Edit net net.reset

abbrev Edits := Relation.ReflTransGen Edit

variable {net net' : Network}

theorem Construct.integrity (h : Construct net net') (hi : net.Integrity) : net'.Integrity := by
  cases h with
  | constant value hf => exact hi.addVariable rfl rfl
  | named name hfree => exact hi.addNamed (by simp [Variable.blank]) rfl hfree
  | intermediate n hle hfree =>
    have hs : SameGraph net { net with nextIntermediate := n + 1 } :=
      ⟨rfl, rfl, rfl, fun _ => rfl, fun _ => rfl⟩
    exact (hs.integrity hi).addNamed (by simp [Variable.blank]) rfl hfree
  | relate relation hlive => exact hi.relate hlive

theorem Discard.integrity (h : Discard net net') (hi : net.Integrity) : net'.Integrity := by
  cases h with
  | remove h => exact hi.removeRelationship h
  | drop v hfree => exact hi.dropVariable hfree

theorem SameGraph.of_counters (net : Network) (functions : Table String FunctionEntry)
    (last : Digest) :
    SameGraph net { net with functions := functions, lastDigest := last } :=
  ⟨rfl, rfl, rfl, fun _ => rfl, fun _ => rfl⟩

theorem sameGraph_updateVariable (net : Network) (v : VariableId) (f : Variable → Variable)
    (hf : ∀ x, net.variableAt v = some x → (f x).name = x.name ∧ (f x).kind = x.kind ∧
      (f x).relationships = x.relationships) : SameGraph net (net.updateVariable v f) := by
  refine ⟨rfl, rfl, rfl, fun w => ?_, fun _ => rfl⟩
  rw [variableAt_updateVariable]
  split
  · rename_i hvw
    subst hvw
    cases hx : net.variableAt v with
    | none => rfl
    | some x => simp [hf x hx]
  · rfl

theorem sameGraph_mark (net : Network) (r : RelationshipId) (m : Option Digest) :
    SameGraph net (net.updateRelationship r (·.mark m)) := by
  refine ⟨rfl, rfl, rfl, fun _ => rfl, fun s => ?_⟩
  rw [relationshipAt_updateRelationship]
  split
  · cases net.relationshipAt s <;> rfl
  · rfl

theorem sameGraph_reset (net : Network) : SameGraph net net.reset := by
  refine ⟨rfl, rfl, rfl, fun v => ?_, fun r => ?_⟩
  · rw [variableAt_reset]
    cases net.variableAt v <;> simp [Variable.clear]
  · rw [relationshipAt_reset]
    cases net.relationshipAt r <;> simp [Relationship.mark]

theorem Edit.integrity (h : Edit net net') (hi : net.Integrity) : net'.Integrity := by
  cases h with
  | construct h => exact h.integrity hi
  | discard h => exact h.integrity hi
  | define v r hv hr =>
    apply hi.redefine
    intro w s hd
    rw [Table.find?_insert] at hd
    split at hd
    · rename_i hwv
      cases hd
      exact hwv ▸ ⟨hv, hr⟩
    · exact hi.defined w s hd
  | undefine v =>
    apply hi.redefine
    intro w s hd
    rw [Table.find?_erase] at hd
    split at hd
    · cases hd
    · exact hi.defined w s hd
  | register name entry hfree =>
    exact (SameGraph.of_counters net _ net.lastDigest).integrity hi
  | hold v h hs hf =>
    exact (sameGraph_updateVariable net v _ fun x _ => by simp).integrity hi
  | watch v w =>
    exact (sameGraph_updateVariable net v (·.watch w) fun x _ => ⟨rfl, rfl, rfl⟩).integrity hi
  | settle hx hu hf hd =>
    refine (sameGraph_updateVariable net _ _ fun y hy => ?_).integrity hi
    rw [hx] at hy
    cases hy
    exact ⟨rfl, rfl, rfl⟩
  | mark r m hm => exact (sameGraph_mark net r m).integrity hi
  | see d => exact (SameGraph.of_counters net net.functions _).integrity hi
  | reset => exact (sameGraph_reset net).integrity hi

theorem Edits.integrity (h : Edits net net') (hi : net.Integrity) : net'.Integrity := by
  induction h with
  | refl => exact hi
  | tail _ he ih => exact he.integrity ih

theorem Edits.config (h : Edits net net') : net'.config = net.config := by
  induction h with
  | refl => rfl
  | tail _ he ih =>
    rw [← ih]
    cases he with
    | construct h => cases h <;> rfl
    | discard h =>
      cases h with
      | remove h => rw [removeRelationship_eq h]
      | drop v => unfold dropVariable; split <;> rfl
    | _ => rfl

end ConstraintNet.Network
