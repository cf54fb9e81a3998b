import Mathlib.Data.List.Basic
import ConstraintNet.Network.Snapshot
import ConstraintNet.Proofs.Derive
import ConstraintNet.Proofs.Reachable

/-!
# What a reachable network shows

In a network whose structures agree no handle dangles: relationships are rendered with
the names of their operands, faults of propagation name a relationship that is there,
and a snapshot shows exactly the registered names.
-/

set_option autoImplicit false

namespace ConstraintNet

open Network

variable {net net' : Network} {d : Digest}

namespace Network

theorem SameGraph.label_eq (h : SameGraph net net') (v : VariableId) :
    net'.label v = net.label v := by
  have hv := h.vars v
  unfold label
  cases hx : net.variableAt v with
  | none =>
    rw [hx] at hv
    cases hx' : net'.variableAt v with
    | none => rfl
    | some x' => simp [hx'] at hv
  | some x =>
    obtain ⟨x', hx', hn, -⟩ := h.symm.variable_some hx
    simp only [hx', hn]

theorem SameGraph.equation_eq (h : SameGraph net net') (relation : Relation) :
    net'.equation relation = net.equation relation := by
  have hl : net'.label = net.label := funext h.label_eq
  unfold equation
  rw [hl]

theorem SameGraph.render_eq (h : SameGraph net net') (r : RelationshipId) :
    net'.render r = net.render r := by
  have hr := h.rels r
  unfold render
  cases hrel : net.relationshipAt r with
  | none =>
    rw [hrel] at hr
    cases hrel' : net'.relationshipAt r with
    | none => rfl
    | some rel' => simp [hrel'] at hr
  | some rel =>
    obtain ⟨rel', hrel', he⟩ := h.symm.relationship_some hrel
    simp only [hrel', he, h.equation_eq]

theorem Integrity.rendered (hi : net.Integrity) {r : RelationshipId} (hr : r ∈ net.order) :
    ∃ rel, net.relationshipAt r = some rel ∧ net.render r = net.equation rel.relation ∧
      ∀ v ∈ rel.relation.operands, ∃ x, net.variableAt v = some x ∧ net.label v = x.name := by
  obtain ⟨rel, hrel⟩ := Option.isSome_iff_exists.mp ((hi.mem_order r).mp hr)
  refine ⟨rel, hrel, by simp [render, hrel], fun v hv => ?_⟩
  obtain ⟨x, hx⟩ := Option.isSome_iff_exists.mp (hi.operand_live r v ⟨rel, hrel, hv⟩)
  exact ⟨x, hx, by simp [label, hx]⟩

/-- The faults that propagation may stop with. Those with a text show a relationship
that is there. -/
inductive Explains (net : Network) : Fault → Prop
  | contradiction (c : Contradiction) : Explains net (.contradiction c)
  | derive {r : RelationshipId} (hr : r ∈ net.order) (fault : DeriveFault) :
    Explains net (fault.fault (net.render r))
  | refused (name : String) (value : Float) :
    Explains net (.invalidValue (.cannotHold name value))

theorem Explains.ne_unknownVariable {fault : Fault} (h : net.Explains fault) (v : VariableId) :
    fault ≠ .unknownVariable v := by
  cases h with
  | derive hr fault => cases fault <;> exact Fault.noConfusion
  | _ => exact Fault.noConfusion

theorem Explains.congr {fault : Fault} (h : net.Explains fault) (hs : SameGraph net net') :
    net'.Explains fault := by
  cases h with
  | contradiction c => exact .contradiction c
  | derive hr fault =>
    rw [← hs.render_eq]
    exact .derive (hs.order ▸ hr) fault
  | refused name value => exact .refused name value

end Network

def Task.Live (net : Network) : Task → Prop
  | .write v _ => (net.variableAt v).isSome
  | .solve _ | .each _ _ => True

theorem Cascade.explains {task : Task} {run run' : Run} {outcome : Option Fault}
    (h : Cascade d task run outcome run') (hi : run.network.Integrity)
    (hl : task.Live run.network) {fault : Fault} (ho : outcome = some fault) :
    run'.network.Explains fault := by
  induction h with
  | unknown hx =>
    simp only [Task.Live, hx] at hl
    cases hl
  | contradicts =>
    cases ho
    exact .contradiction _
  | agrees => cases ho
  | stores hx hu _ ih => exact ih ((advance_store hx hu _).integrity hi) trivial ho
  | absent => cases ho
  | waits => cases ho
  | refuses hr =>
    cases ho
    exact .derive ((hi.mem_order _).mpr (by simp [hr])) _
  | derives => cases ho
  | @restores run run' r rel t value fault hr hd h ih =>
    have hlive := hi.operand_live r t ⟨rel, hr, (Relation.derive_target hd).1⟩
    exact (ih ((advance_mark hr).integrity hi) hlive ho).congr (sameGraph_mark _ _ _)
  | done => cases ho
  | skips _ _ ih => exact ih hi trivial ho
  | turns _ h _ _ ih' => exact ih' (h.advance.integrity hi) trivial ho
  | stops _ _ ih => exact ih hi trivial ho

def Call.Propagates : Call → Prop
  | .solve _ | .next | .write .. => True
  | _ => False

namespace Network

theorem explains_solve (hi : net.Integrity) (d : Digest) {fault : Fault}
    (h : (net.perform (.solve d)).result = .error fault) :
    (net.perform (.solve d)).network.Explains fault := by
  rcases net.perform_solve d with ⟨report, run', hp, -⟩ | ⟨fault', run', hp, mid, hpre, hlast⟩
  · rw [hp] at h
    cases h
  · rw [hp] at h ⊢
    cases h
    have hs : SameGraph net (Propagation.start d ⟨net, []⟩).network :=
      SameGraph.of_counters net net.functions _
    exact Cascade.explains hlast ((Passed.advance hpre).integrity (hs.integrity hi)) trivial rfl

theorem explains_write (hi : net.Integrity) (name : String) (value : Float) (d : Digest)
    {fault : Fault} (h : (net.perform (.write name value d)).result = .error fault) :
    (net.perform (.write name value d)).network.Explains fault := by
  rcases Outcome.of_ends (ends_write ⟨net, []⟩ name value d) .flag with
    ⟨changed, run', hp, -⟩ | ⟨fault', run', hp, hbad⟩
  · change net.perform (.write name value d) = _ at hp
    rw [hp] at h
    cases h
  · change net.perform (.write name value d) = _ at hp
    rw [hp] at h ⊢
    cases h
    rcases hbad with ⟨-, -, rfl⟩ | ⟨-, hc⟩
    · exact .refused name value
    · exact hc.explains ((edits_prepared net name d).integrity hi) (live_declare hi name) rfl

theorem explains_of_propagates (hi : net.Integrity) {c : Call} (hc : c.Propagates)
    {fault : Fault} (h : (net.perform c).result = .error fault) :
    (net.perform c).network.Explains fault := by
  cases c with
  | solve d => exact explains_solve hi d h
  | next => exact explains_solve hi _ h
  | write name value d => exact explains_write hi name value d h
  | _ => exact hc.elim

theorem Integrity.exists_live_iff (hi : net.Integrity) (name : String) (v : VariableId) :
    net.lookup name = some v ↔
      ∃ x, net.variableAt v = some x ∧ x.isConstant = false ∧ x.name = name := by
  rw [hi.registered]
  simp [Variable.isConstant]

theorem Integrity.find?_snapshot (hi : net.Integrity) (name : String) :
    net.snapshot.find? name =
      (net.lookup name).bind fun v => (net.variableAt v).map Variable.snapshot := by
  cases hs : net.snapshot.find? name with
  | none =>
    cases hl : net.lookup name with
    | none => rfl
    | some v =>
      obtain ⟨x, hx, hc, hn⟩ := (hi.exists_live_iff name v).mp hl
      have hmem : x.snapshot ∈ net.snapshot.vars := by
        refine List.mem_map.mpr ⟨x, List.mem_filter.mpr ⟨Arena.mem_live.mpr ⟨_, hx⟩, ?_⟩, rfl⟩
        simp [hc]
      have hnone := List.find?_eq_none.mp hs x.snapshot hmem
      simp [Variable.snapshot, hn] at hnone
  | some shown =>
    have hname : shown.name = name := by simpa using List.find?_some hs
    obtain ⟨x, hx, rfl⟩ := List.mem_map.mp (List.mem_of_find?_eq_some hs)
    obtain ⟨hlive, hc⟩ := List.mem_filter.mp hx
    obtain ⟨i, hi'⟩ := Arena.mem_live.mp hlive
    have hv : net.variableAt ⟨i⟩ = some x := hi'
    have hl := (hi.exists_live_iff name ⟨i⟩).mpr ⟨x, hv, by simpa using hc, hname⟩
    simp [hl, hv]

theorem Integrity.snapshot_agrees (hi : net.Integrity) (name : String) :
    (net.snapshot.find? name).isSome = net.has name ∧
      ∀ shown, net.snapshot.find? name = some shown →
        shown.name = name ∧ shown.value = net.value name ∧ net.state name = some shown.state := by
  have hlookup : net.has name = (net.lookup name).isSome := rfl
  rw [hi.find?_snapshot, hlookup]
  cases hl : net.lookup name with
  | none => simp
  | some v =>
    obtain ⟨x, hx, -, hn⟩ := (hi.exists_live_iff name v).mp hl
    simp [hx, hn, Variable.snapshot, value, state, valueOf, hl]

/-- In every reachable network the five structures agree. So propagation never meets a
handle without a variable, every relationship is rendered by the names of its operands,
and a snapshot shows what the registry knows. -/
theorem reachable_agrees (h : Reachable net) :
    net.Integrity ∧
    (∀ c : Call, c.Propagates → ∀ fault, (net.perform c).result = .error fault →
      (net.perform c).network.Explains fault ∧ ∀ v, fault ≠ .unknownVariable v) ∧
    (∀ r ∈ net.order, ∃ rel, net.relationshipAt r = some rel ∧
      net.render r = net.equation rel.relation ∧
      ∀ v ∈ rel.relation.operands, ∃ x, net.variableAt v = some x ∧ net.label v = x.name) ∧
    ∀ name, (net.snapshot.find? name).isSome = net.has name ∧
      ∀ shown, net.snapshot.find? name = some shown →
        shown.name = name ∧ shown.value = net.value name ∧ net.state name = some shown.state := by
  have hi := h.integrity
  refine ⟨hi, fun c hc fault hfault => ?_, fun r hr => hi.rendered hr, hi.snapshot_agrees⟩
  have he := explains_of_propagates hi hc hfault
  exact ⟨he, he.ne_unknownVariable⟩

def conflictingPair : Network :=
  (empty .standard).after [.equals (.name "b") (.name "a"), .assign "a" 1, .assign "b" 3]

theorem reachable_agrees_conflictingPair :
    Reachable conflictingPair ∧ conflictingPair.Integrity ∧
      (conflictingPair.perform (.solve 1)).result = .error (.contradiction ⟨"b", 3, 1⟩) ∧
      (conflictingPair.perform (.solve 1)).network.Explains (.contradiction ⟨"b", 3, 1⟩) ∧
      (∃ rel, conflictingPair.relationshipAt ⟨0⟩ = some rel ∧
        conflictingPair.render ⟨0⟩ = conflictingPair.equation rel.relation) ∧
      (conflictingPair.snapshot.find? "b").isSome = conflictingPair.has "b" := by
  have hr : Reachable conflictingPair :=
    ⟨.standard, empty .standard, _, create_standard, rfl⟩
  have hfault : (conflictingPair.perform (.solve 1)).result =
      .error (.contradiction ⟨"b", 3, 1⟩) := rfl
  obtain ⟨hi, hexplains, hrendered, hshown⟩ := reachable_agrees hr
  obtain ⟨rel, hrel, hrender, -⟩ := hrendered ⟨0⟩ (by decide +kernel)
  exact ⟨hr, hi, hfault, (hexplains (.solve 1) trivial _ hfault).1, ⟨rel, hrel, hrender⟩,
    (hshown "b").1⟩

end Network

end ConstraintNet
