import ConstraintNet.Proofs.Reachable

/-!
# What a call in a digest adds to what is known

Solving a digest, and writing a value in it, only ever adds to what is known in the
digest. Every value that is added is told to the watches of its variable in one round,
at the moment it is stored, and no watch is told anything else. A failed call is no
exception, since nothing that was stored is ever taken back.
-/

set_option autoImplicit false

namespace ConstraintNet

open Network

variable {d : Digest} {net : Network}

def Network.firings (net : Network) (d : Digest) (v : VariableId) : List Firing :=
  match net.variableAt v, net.valueAt d v with
  | some x, some value => x.watches.map (⟨·, value⟩)
  | _, _ => []

theorem Network.firings_eq {v : VariableId} {x : Variable} {value : Float}
    (hx : net.variableAt v = some x) (hv : net.valueAt d v = some value) :
    net.firings d v = x.watches.map (⟨·, value⟩) := by
  simp only [firings, hx, hv]

theorem Network.Advance.variable_known {net' : Network} (h : Advance d net net')
    {v : VariableId} {x : Variable} (hx : net.variableAt v = some x)
    (hk : (x.holding.valueAt d).isSome) : net'.variableAt v = some x := by
  obtain ⟨x', hx', rfl | ⟨hu, -⟩⟩ := h.variable_some hx
  · exact hx'
  · rw [hu] at hk
    cases hk

theorem Network.Advance.firings_known {net' : Network} (h : Advance d net net')
    {v : VariableId} (hk : (net.valueAt d v).isSome) : net'.firings d v = net.firings d v := by
  cases hx : net.variableAt v with
  | none => simp [valueAt, hx] at hk
  | some x =>
    obtain ⟨value, hv⟩ := Option.isSome_iff_exists.mp hk
    have hx' := h.variable_known hx (by rwa [← valueAt_eq hx])
    rw [firings_eq hx hv, firings_eq hx' (h.known hv)]

structure Network.Learned (net : Network) (d : Digest) (written : List VariableId)
    (net' : Network) : Prop where
  nodup : written.Nodup
  mem_iff : ∀ v, v ∈ written ↔ net.valueAt d v = none ∧ (net'.valueAt d v).isSome

namespace Network.Learned

variable {mid net' : Network}

theorem nil (hv : ∀ v, net'.valueAt d v = net.valueAt d v) : net.Learned d [] net' := by
  refine ⟨List.nodup_nil, fun v => ?_⟩
  rw [hv v]
  constructor
  · intro hmem
    cases hmem
  · intro ⟨hu, hk⟩
    rw [hu] at hk
    cases hk

theorem append {first second : List VariableId} (h : net.Learned d first mid)
    (h' : mid.Learned d second net') (hadv : Advance d net mid) (hadv' : Advance d mid net') :
    net.Learned d (first ++ second) net' := by
  refine ⟨?_, fun v => ?_⟩
  · -- What became known first was not unknown any more after that.
    rw [List.nodup_append]
    refine ⟨h.nodup, h'.nodup, fun v hv w hw he => ?_⟩
    have hk := ((h.mem_iff v).mp hv).2
    rw [he, ((h'.mem_iff w).mp hw).1] at hk
    cases hk
  · rw [List.mem_append, h.mem_iff, h'.mem_iff]
    constructor
    · rintro (⟨hu, hk⟩ | ⟨hu, hk⟩)
      · exact ⟨hu, hadv'.isSome_known hk⟩
      · exact ⟨hadv.unknown hu, hk⟩
    · intro ⟨hu, hk⟩
      by_cases hv : (mid.valueAt d v).isSome
      · exact .inl ⟨hu, hv⟩
      · exact .inr ⟨by simpa using hv, hk⟩

theorem store {v : VariableId} {x : Variable} (hx : net.variableAt v = some x)
    (hu : x.holding.valueAt d = none) (value : Float) :
    net.Learned d [v] (net.updateVariable v fun _ => { x with holding := .solved value (some d) }) := by
  refine ⟨List.nodup_singleton v, fun w => ?_⟩
  rw [List.mem_singleton, valueAt_store hx]
  by_cases hvw : v = w
  · subst hvw
    simp [valueAt_eq hx, hu]
  · rw [if_neg hvw]
    constructor
    · intro he
      exact absurd he.symm hvw
    · intro ⟨hnone, hsome⟩
      rw [hnone] at hsome
      cases hsome

end Network.Learned

/-- Some variables became known between two runs, and the watches fired are theirs: one round
for each variable, and in each round the watches in order with the value stored. -/
structure Told (d : Digest) (written : List VariableId) (run run' : Run) : Prop where
  learned : run.network.Learned d written run'.network
  fired : run'.fired = run.fired ++ written.flatMap (run'.network.firings d)

def Tells (d : Digest) (run run' : Run) : Prop :=
  ∃ written : List VariableId, written.Nodup ∧
    (∀ v, v ∈ written ↔ run.network.valueAt d v = none ∧ (run'.network.valueAt d v).isSome) ∧
    run'.fired = run.fired ++ written.flatMap (run'.network.firings d)

namespace Told

variable {run mid run' : Run} {written : List VariableId}

theorem tells (h : Told d written run run') : Tells d run run' :=
  ⟨written, h.learned.nodup, h.learned.mem_iff, h.fired⟩

theorem silent (hf : run'.fired = run.fired)
    (hv : ∀ v, run'.network.valueAt d v = run.network.valueAt d v) : Told d [] run run' :=
  ⟨.nil hv, by simp [hf]⟩

theorem refl (d : Digest) (run : Run) : Told d [] run run := silent rfl fun _ => rfl

theorem append {second : List VariableId} (h : Told d written run mid) (h' : Told d second mid run')
    (hadv : Advance d run.network mid.network) (hadv' : Advance d mid.network run'.network) :
    Told d (written ++ second) run run' := by
  refine ⟨h.learned.append h'.learned hadv hadv', ?_⟩
  have hrounds : written.flatMap (mid.network.firings d) =
      written.flatMap (run'.network.firings d) := by
    apply List.flatMap_congr
    intro v hv
    exact (hadv'.firings_known ((h.learned.mem_iff v).mp hv).2).symm
  rw [h'.fired, h.fired, hrounds, List.flatMap_append, List.append_assoc]

theorem store {v : VariableId} {x : Variable} (hx : run.network.variableAt v = some x)
    (hu : x.holding.valueAt d = none) (value : Float) : Told d [v] run (run.store d v x value) := by
  have hvalue : (run.store d v x value).network.valueAt d v = some value :=
    (valueAt_store hx value v).trans (if_pos rfl)
  have hx' : (run.store d v x value).network.variableAt v =
      some { x with holding := .solved value (some d) } := by
    simp [Run.store, variableAt_updateVariable, hx]
  refine ⟨.store hx hu value, ?_⟩
  rw [List.flatMap_singleton, firings_eq hx' hvalue]
  rfl

end Told

namespace Tells

variable {run mid run' : Run}

theorem refl (d : Digest) (run : Run) : Tells d run run := (Told.refl d run).tells

theorem mark (run : Run) (r : RelationshipId) (m : Option Digest) : Tells d run (run.mark r m) :=
  (Told.silent rfl fun _ => rfl).tells

theorem trans (h : Tells d run mid) (h' : Tells d mid run')
    (hadv : Advance d run.network mid.network) (hadv' : Advance d mid.network run'.network) :
    Tells d run run' := by
  obtain ⟨first, hnodup, hmem, hfired⟩ := h
  obtain ⟨second, hnodup', hmem', hfired'⟩ := h'
  exact (Told.append ⟨⟨hnodup, hmem⟩, hfired⟩ ⟨⟨hnodup', hmem'⟩, hfired'⟩ hadv hadv').tells

theorem store {v : VariableId} {x : Variable} (hx : run.network.variableAt v = some x)
    (hu : x.holding.valueAt d = none) (value : Float) : Tells d run (run.store d v x value) :=
  (Told.store hx hu value).tells

end Tells

/-- However a cascade ends, it has told of every value that it stored, once, and of no
other. -/
theorem Cascade.tells {task : Task} {run run' : Run} {outcome : Option Fault}
    (h : Cascade d task run outcome run') : Tells d run run' := by
  induction h with
  | unknown | contradicts | agrees => exact .refl _ _
  | stores hx hu h ih => exact (Tells.store hx hu _).trans ih (advance_store hx hu _) h.advance
  | absent | waits | refuses => exact .refl _ _
  | derives hr _ h ih => exact (Tells.mark _ _ _).trans ih (advance_mark hr) h.advance
  | restores hr _ h ih =>
    -- Putting a marker back tells nobody, and what was stored stays known.
    obtain ⟨written, hnodup, hmem, hfired⟩ :=
      (Tells.mark _ _ _).trans ih (advance_mark hr) h.advance
    exact ⟨written, hnodup, hmem, hfired⟩
  | done => exact .refl _ _
  | skips _ _ ih => exact ih
  | turns _ h h' ih ih' => exact ih.trans ih' h.advance h'.advance
  | stops _ _ ih => exact ih

theorem Passed.tells {run run' : Run} (h : Passed d run run') : Tells d run run' := by
  induction h with
  | refl => exact .refl _ _
  | tail hpre hlast ih =>
    exact ih.trans (Cascade.tells hlast) (Passed.advance hpre) (Cascade.advance hlast)

namespace Network

theorem write_cascades (net : Network) (name : String) {value : Float} (hf : value.isFinite)
    (d : Digest) : ∃ run' outcome,
    Cascade d (.write (net.declare name).1 value) ⟨net.prepared name d, []⟩ outcome run' ∧
      (net.perform (.write name value d)).network = run'.network ∧
      (net.perform (.write name value d)).fired = run'.fired := by
  rcases Outcome.of_ends (ends_write ⟨net, []⟩ name value d) .flag with
    ⟨answer, run', hp, -, h⟩ | ⟨fault, run', hp, ⟨hn, -⟩ | ⟨-, h⟩⟩
  · exact ⟨run', none, h, congrArg Outcome.network hp, congrArg Outcome.fired hp⟩
  · exact absurd hf hn
  · exact ⟨run', some fault, h, congrArg Outcome.network hp, congrArg Outcome.fired hp⟩

theorem write_refuses (net : Network) (name : String) {value : Float} (hf : ¬ value.isFinite)
    (d : Digest) : net.perform (.write name value d) =
      ⟨.error (.invalidValue (.cannotHold name value)), net, []⟩ := by
  rcases Outcome.of_ends (ends_write ⟨net, []⟩ name value d) .flag with
    ⟨answer, run', -, h, -⟩ | ⟨fault, run', hp, ⟨-, rfl, rfl⟩ | ⟨h, -⟩⟩
  · exact absurd h hf
  · exact hp
  · exact absurd h hf

theorem variableAt_declare {name : String} {v : VariableId} {x : Variable}
    (hx : net.variableAt v = some x) : (net.declare name).2.variableAt v = some x := by
  unfold declare
  split
  · exact hx
  · exact net.variableAt_addVariable_of_some hx

theorem valueAt_declare (name : String) (v : VariableId) :
    (net.declare name).2.valueAt d v = net.valueAt d v := by
  unfold declare
  split
  · rfl
  · unfold valueAt
    rw [variableAt_addNamed]
    split
    · rename_i hv
      have hnew : net.variableAt v = none := hv ▸ net.variableAt_next
      rw [hnew]
      rfl
    · rfl

theorem relationshipAt_declare (name : String) (r : RelationshipId) :
    (net.declare name).2.relationshipAt r = net.relationshipAt r := by
  unfold declare
  split <;> rfl

/-- What a call in a digest leaves of a network and adds to it, where `declared` is the
network with the variable that the call makes, if it makes one. -/
structure Learns (d : Digest) (net declared : Network) (o : Outcome) : Prop where
  kept : ∀ v x, net.variableAt v = some x → (x.holding.valueAt d).isSome →
    o.network.variableAt v = some x
  learned : ∀ v x, net.variableAt v = some x → x.holding.valueAt d = none →
    o.network.variableAt v = some x ∨ ∃ value, value.isFinite ∧
      o.network.variableAt v = some { x with holding := .solved value (some d) }
  told : ∃ written : List VariableId, written.Nodup ∧
    (∀ v, v ∈ written ↔ net.valueAt d v = none ∧ (o.network.valueAt d v).isSome) ∧
    o.fired = written.flatMap (o.network.firings d)
  present : ∀ v, (o.network.variableAt v).isSome = (declared.variableAt v).isSome
  marked : ∀ r, Option.Rel (Marked d) (net.relationshipAt r) (o.network.relationshipAt r)
  rest : o.network = { declared with
    vars := o.network.vars, relationships := o.network.relationships,
    lastDigest := o.network.lastDigest }

theorem learns_of_advance {declared : Network} {last : Digest} {o : Outcome}
    (hx : ∀ v x, net.variableAt v = some x → declared.variableAt v = some x)
    (hv : ∀ v, declared.valueAt d v = net.valueAt d v)
    (hr : ∀ r, declared.relationshipAt r = net.relationshipAt r)
    (h : Advance d { declared with lastDigest := last } o.network)
    (ht : Tells d ⟨{ declared with lastDigest := last }, []⟩ ⟨o.network, o.fired⟩)
    (hw : o.network.WellHeld) : net.Learns d declared o where
  kept v x hold hk := h.variable_known (hx v x hold) hk
  learned v x hold hu := by
    obtain ⟨x', hx', rfl | ⟨-, value, rfl⟩⟩ := h.variable_some (hx v x hold)
    · exact .inl hx'
    · exact .inr ⟨value, (hw.held v _ hx').finite rfl, hx'⟩
  told := by
    obtain ⟨written, hnodup, hmem, hfired⟩ := ht
    refine ⟨written, hnodup, fun v => ?_, hfired⟩
    rw [hmem, ← hv v]
    rfl
  present := h.sameGraph.isSome_variableAt
  marked r := by
    rw [← hr r]
    exact h.relationships r
  rest := by
    rw [h.rest]

/-- In a digest knowledge only grows, however a call ends. A variable that is known stays
as it is; any other stays as it is as well or is solved in the digest, with a finite
value, of which each of its watches is told once and in order. Nothing else is told,
and nothing else changes but markers, the digest seen and the variable that a write
makes. -/
theorem knowledge_only_grows (hr : Reachable net) (d : Digest) :
    net.Learns d net (net.perform (.solve d)) ∧
    ∀ name value, net.Learns d (if value.isFinite then (net.declare name).2 else net)
      (net.perform (.write name value d)) := by
  constructor
  · obtain ⟨mid, run', outcome, hpre, hlast, hnet, hfired⟩ := net.solve_passes d
    have hadv := (Passed.advance hpre).trans (Cascade.advance hlast)
    have htells := (Passed.tells hpre).trans (Cascade.tells hlast) (Passed.advance hpre)
      (Cascade.advance hlast)
    apply learns_of_advance (fun _ _ hx => hx) (fun _ => rfl) (fun _ => rfl) (hnet ▸ hadv)
    · rw [hnet, hfired]
      exact htells
    · exact (hr.perform (.solve d)).wellHeld
  · intro name value
    by_cases hf : value.isFinite
    · rw [if_pos hf]
      obtain ⟨run', outcome, h, hnet, hfired⟩ := net.write_cascades name hf d
      apply learns_of_advance (fun _ _ => variableAt_declare) (valueAt_declare name)
        (relationshipAt_declare name) (hnet ▸ h.advance)
      · rw [hnet, hfired]
        exact h.tells
      · exact (hr.perform (.write name value d)).wellHeld
    · rw [if_neg hf, write_refuses net name hf]
      exact learns_of_advance (fun _ _ hx => hx) (fun _ => rfl) (fun _ => rfl) (.refl d net)
        (.refl d ⟨net, []⟩) hr.wellHeld

def watchedChain : Network :=
  (empty .standard).after [.equals (.name "b") (.name "a"), .equals (.name "c") (.name "b"),
    .assign "c" 5, .watch "b" 7, .watch "b" 9]

theorem knowledge_only_grows_watchedChain :
    Reachable watchedChain ∧
      (watchedChain.perform (.write "a" 2 1)).result = .error (.contradiction ⟨"c", 5, 2⟩) ∧
      (watchedChain.perform (.write "a" 2 1)).fired = [⟨7, 2⟩, ⟨9, 2⟩] ∧
      watchedChain.Learns 1 (watchedChain.declare "a").2
        (watchedChain.perform (.write "a" 2 1)) := by
  have hr : Reachable watchedChain := ⟨.standard, empty .standard, _, create_standard, rfl⟩
  have hlearns := (knowledge_only_grows hr 1).2 "a" 2
  have hfinite : (2 : Float).isFinite := by decide +kernel
  rw [if_pos hfinite] at hlearns
  exact ⟨hr, rfl, rfl, hlearns⟩

end Network

end ConstraintNet
