import ConstraintNet.Proofs.Fixpoint
import ConstraintNet.Proofs.Knowledge

/-!
# Contradictions stay

A contradiction is raised where a relationship knows all its operands and derives for its
result a value that does not agree with the one held. In a digest no value is ever rewritten,
so the relationship derives the same from then on, and every pass that comes to its turn is
stopped there at the latest.
-/

set_option autoImplicit false

namespace ConstraintNet

open Network

variable {d : Digest} {c : Contradiction}

namespace Network

variable {net net' : Network} {r : RelationshipId} {relation : Relation}

/-- A relationship that knows all its operands derives for its result a value beyond the
tolerance of the one held there. -/
structure Conflicts (net : Network) (d : Digest) (c : Contradiction) (r : RelationshipId)
    (relation : Relation) : Prop where
  present : ∃ marker, net.relationshipAt r = some ⟨relation, marker⟩
  known : ∀ v ∈ relation.operands, (net.valueAt d v).isSome
  derives : relation.derive (net.valueAt d) = .ok (.derived relation.result c.attempted)
  named : ∃ x, net.variableAt relation.result = some x ∧ x.name = c.name
  held : net.valueAt d relation.result = some c.held
  beyond : ¬ (c.held - c.attempted).abs ≤ net.config.tolerance

/-- Relationships, names, settings and what is known in a digest are still there. -/
structure Upholds (d : Digest) (net net' : Network) : Prop where
  config : net'.config = net.config
  relations : ∀ r rel, net.relationshipAt r = some rel →
    ∃ marker, net'.relationshipAt r = some ⟨rel.relation, marker⟩
  names : ∀ v x, net.variableAt v = some x → ∃ x', net'.variableAt v = some x' ∧ x'.name = x.name
  known : ∀ v value, net.valueAt d v = some value → net'.valueAt d v = some value

theorem Upholds.refl (d : Digest) (net : Network) : Upholds d net net :=
  ⟨rfl, fun _ rel hr => ⟨rel.marker, hr⟩, fun _ x hx => ⟨x, hx, rfl⟩, fun _ _ hv => hv⟩

theorem Upholds.trans {mid : Network} (h : Upholds d net mid) (h' : Upholds d mid net') :
    Upholds d net net' where
  config := h'.config.trans h.config
  relations r rel hr := by
    obtain ⟨marker, hmid⟩ := h.relations r rel hr
    obtain ⟨marker', hend⟩ := h'.relations r ⟨rel.relation, marker⟩ hmid
    exact ⟨marker', hend⟩
  names v x hx := by
    obtain ⟨y, hy, hyx⟩ := h.names v x hx
    obtain ⟨z, hz, hzy⟩ := h'.names v y hy
    exact ⟨z, hz, hzy.trans hyx⟩
  known v value hv := h'.known v value (h.known v value hv)

theorem Advance.upholds (h : Advance d net net') : Upholds d net net' where
  config := h.config
  relations r rel hr := by
    obtain ⟨rel', hr', rfl | rfl⟩ := h.relationship_some hr
    · exact ⟨rel'.marker, hr'⟩
    · exact ⟨some d, hr'⟩
  names v x hx := by
    obtain ⟨x', hx', rfl | ⟨-, value, rfl⟩⟩ := h.variable_some hx
    · exact ⟨x', hx', rfl⟩
    · exact ⟨_, hx', rfl⟩
  known v value hv := h.known hv

theorem upholds_seen (d : Digest) (net : Network) (last : Digest) :
    Upholds d net { net with lastDigest := last } :=
  ⟨rfl, fun _ rel hr => ⟨rel.marker, hr⟩, fun _ x hx => ⟨x, hx, rfl⟩, fun _ _ hv => hv⟩

theorem upholds_declare (d : Digest) (net : Network) (name : String) :
    Upholds d net (net.declare name).2 where
  config := by rw [declare_rest]
  relations r rel hr := ⟨rel.marker, (relationshipAt_declare name r).trans hr⟩
  names v x hx := ⟨x, variableAt_declare hx, rfl⟩
  known v value hv := (valueAt_declare name v).trans hv

theorem upholds_prepared (d : Digest) (net : Network) (name : String) (e : Digest) :
    Upholds d net (net.prepared name e) :=
  (upholds_declare d net name).trans (upholds_seen d _ _)

theorem upholds_updateVariable (d : Digest) (net : Network) (w : VariableId)
    (f : Variable → Variable) (hname : ∀ x, (f x).name = x.name)
    (hholding : ∀ x, (f x).holding = x.holding) : Upholds d net (net.updateVariable w f) where
  config := rfl
  relations r rel hr := ⟨rel.marker, hr⟩
  names v x hx := by
    rw [variableAt_updateVariable]
    split
    · exact ⟨f x, by rw [hx, Option.map_some], hname x⟩
    · exact ⟨x, hx, rfl⟩
  known v value hv := by
    rw [← hv]
    simp only [valueAt, variableAt_updateVariable]
    split
    · simp [Option.bind_map, hholding]
    · rfl

theorem upholds_mark (d : Digest) (net : Network) (s : RelationshipId) (m : Option Digest) :
    Upholds d net (net.updateRelationship s (·.mark m)) where
  config := rfl
  relations r rel hr := by
    rw [relationshipAt_updateRelationship]
    split
    · exact ⟨m, by rw [hr, Option.map_some, Relationship.mark]⟩
    · exact ⟨rel.marker, hr⟩
  names _ x hx := ⟨x, hx, rfl⟩
  known _ _ hv := hv

theorem Conflicts.upholds (hc : net.Conflicts d c r relation) (h : Upholds d net net') :
    net'.Conflicts d c r relation where
  present := by
    obtain ⟨marker, hr⟩ := hc.present
    exact h.relations r _ hr
  known v hv := by
    obtain ⟨value, hvalue⟩ := Option.isSome_iff_exists.mp (hc.known v hv)
    rw [h.known v value hvalue]
    rfl
  derives := by
    rw [← hc.derives]
    apply Relation.derive_congr
    intro v hv
    obtain ⟨value, hvalue⟩ := Option.isSome_iff_exists.mp (hc.known v hv)
    rw [hvalue, h.known v value hvalue]
  named := by
    obtain ⟨x, hx, hname⟩ := hc.named
    obtain ⟨x', hx', hsame⟩ := h.names _ x hx
    exact ⟨x', hx', hsame.trans hname⟩
  held := h.known _ _ hc.held
  beyond := h.config ▸ hc.beyond

end Network

def Task.Clashes (net : Network) (d : Digest) (c : Contradiction) : Task → Prop
  | .write v value => (∃ x, net.variableAt v = some x ∧ x.name = c.name) ∧
      net.valueAt d v = some c.held ∧ value = c.attempted ∧
      ¬ (c.held - value).abs ≤ net.config.tolerance
  | _ => False

theorem DeriveFault.fault_ne_contradiction (fault : DeriveFault) (text : String)
    (c : Contradiction) : fault.fault text ≠ .contradiction c := by
  cases fault <;> simp [DeriveFault.fault]

/-- A cascade that ends in a contradiction leaves the relationship it came from, unless it
was asked to write the value itself. -/
theorem Cascade.conflicts {task : Task} {run run' : Run} {outcome : Option Fault}
    (h : Cascade d task run outcome run') (ho : outcome = some (.contradiction c)) :
    (task.Clashes run.network d c ∧ run' = run) ∨
      ∃ r relation, run'.network.Conflicts d c r relation := by
  induction h with
  | unknown => cases ho
  | contradicts hx hh hc =>
    cases ho
    exact .inl ⟨⟨⟨_, hx, rfl⟩, (valueAt_eq hx).trans hh, rfl, hc⟩, rfl⟩
  | agrees => cases ho
  | stores _ _ _ ih => exact .inr ((ih ho).resolve_left fun h => h.1.elim)
  | absent | waits | done => cases ho
  | refuses => exact absurd (Option.some.inj ho) (DeriveFault.fault_ne_contradiction _ _ _)
  | derives => cases ho
  | @restores run run' r rel t value fault hr hd h ih =>
    refine .inr ?_
    rcases ih ho with ⟨⟨⟨x, hx, hname⟩, hheld, rfl, hbeyond⟩, -⟩ | ⟨s, relation, hc⟩
    · -- The value was known, so it is the result that was derived from all the others.
      obtain ⟨rfl, hknown⟩ := Relation.derive_known_target hd (Option.isSome_of_eq_some hheld)
      have hc : run.network.Conflicts d c r rel.relation :=
        ⟨⟨rel.marker, hr⟩, hknown, hd, ⟨x, hx, hname⟩, hheld, hbeyond⟩
      exact ⟨r, rel.relation, hc.upholds (Advance.restore hr h.advance).upholds⟩
    · exact ⟨s, relation, hc.upholds (upholds_mark d _ r rel.marker)⟩
  | skips _ _ ih => exact .inr ((ih ho).resolve_left fun h => h.1.elim)
  | turns _ _ _ _ ih => exact .inr ((ih ho).resolve_left fun h => h.1.elim)
  | stops _ _ ih => exact .inr ((ih ho).resolve_left fun h => h.1.elim)

theorem Network.Conflicts.not_passes {run run' : Run} {r : RelationshipId} {relation : Relation}
    (hc : run.network.Conflicts d c r relation) (hi : run.network.Integrity) :
    ¬ Passes d run none run' := by
  intro h
  obtain ⟨marker, hr⟩ := hc.present
  have hmem : r ∈ run.network.order := (hi.mem_order r).mpr (by rw [hr]; rfl)
  obtain ⟨before, after, hb, hturn, -⟩ := Cascade.turn h rfl hmem
  have hbefore := hc.upholds hb.upholds
  obtain ⟨marker', hr'⟩ := hbefore.present
  rcases hturn.consistent hr' hbefore.known with hwait | ⟨t, value, held, hd, hheld, hle⟩
  · rw [hbefore.derives] at hwait
    cases hwait
  · rw [hbefore.derives] at hd
    cases hd
    rw [hbefore.held] at hheld
    cases hheld
    exact hbefore.beyond hle

namespace Network

variable {net : Network} {r : RelationshipId} {relation : Relation}

theorem Conflicts.solve_fails (hc : net.Conflicts d c r relation) (hi : net.Integrity) :
    ∃ fault, (net.perform (.solve d)).result = .error fault := by
  rcases net.perform_solve d with ⟨report, run', -, hanswered⟩ | ⟨fault, run', hp, -⟩
  · -- The last pass of a solve that answers ended well.
    obtain ⟨mid, hpre, hlast, -⟩ := hanswered.passed
    have hs : SameGraph net (Propagation.start d ⟨net, []⟩).network :=
      SameGraph.of_counters net net.functions _
    have hadv := Passed.advance hpre
    have hmid := hc.upholds ((upholds_seen d net _).trans hadv.upholds)
    exact absurd hlast (hmid.not_passes (hadv.integrity (hs.integrity hi)))
  · exact ⟨fault, by rw [hp]⟩

/-- Calls that add to a digest: solving it, writing in it and watching. -/
inductive Within (d : Digest) : Call → Prop
  | solve : Within d (.solve d)
  | write (name : String) (value : Float) : Within d (.write name value d)
  | watch (name : String) (w : WatchId) : Within d (.watch name w)

theorem Within.upholds {call : Call} (h : Within d call) (net : Network) :
    Upholds d net (net.perform call).network := by
  cases h with
  | solve =>
    obtain ⟨mid, run', outcome, hpre, hlast, hnet, -⟩ := net.solve_passes d
    rw [hnet]
    exact (upholds_seen d net _).trans
      ((Passed.advance hpre).trans (Cascade.advance hlast)).upholds
  | write name value =>
    by_cases hf : value.isFinite
    · obtain ⟨run', outcome, h, hnet, -⟩ := net.write_cascades name hf d
      rw [hnet]
      exact (upholds_prepared d net name d).trans h.advance.upholds
    · rw [write_refuses net name hf]
      exact .refl d net
  | watch name w =>
    exact (upholds_declare d net name).trans
      (upholds_updateVariable d _ _ _ (fun _ => rfl) fun _ => rfl)

theorem upholds_after {calls : List Call} (h : ∀ call ∈ calls, Within d call) (net : Network) :
    Upholds d net (net.after calls) := by
  induction calls generalizing net with
  | nil => exact .refl d net
  | cons call calls ih =>
    rw [List.forall_mem_cons] at h
    exact (h.1.upholds net).trans (ih h.2 _)

/-- A contradiction comes from a relationship that knows all its operands and derives for
its result something else than what is held there, beyond the tolerance. The relationship
is still at odds with what is held after any calls in the digest, and the digest can not
be solved any more. -/
theorem contradictions_persist (hr : Reachable net)
    (h : (net.perform (.solve d)).result = .error (.contradiction c)) :
    ∃ r relation, (net.perform (.solve d)).network.Conflicts d c r relation ∧
      ∀ calls, (∀ call ∈ calls, Within d call) →
        let later := (net.perform (.solve d)).network.after calls
        later.Conflicts d c r relation ∧
          ∃ fault, (later.perform (.solve d)).result = .error fault := by
  rcases net.perform_solve d with ⟨report, run', hp, -⟩ | ⟨fault, run', hp, mid, -, hlast⟩
  · rw [hp] at h
    cases h
  · have hsolve := hr.perform (.solve d)
    rw [hp] at h hsolve ⊢
    cases h
    obtain ⟨r, relation, hc⟩ := (Cascade.conflicts hlast rfl).resolve_left fun h => h.1.elim
    refine ⟨r, relation, hc, fun calls hcalls => ?_⟩
    have hlater := hc.upholds (upholds_after hcalls run'.network)
    exact ⟨hlater, hlater.solve_fails (hsolve.after calls).integrity⟩

def torn : Network :=
  (empty .standard).after [.equals (.name "b") (.name "a"), .assign "a" 1, .assign "b" 5]

theorem contradictions_persist_torn :
    Reachable torn ∧ (torn.perform (.solve 1)).result = .error (.contradiction ⟨"b", 5, 1⟩) ∧
      ∃ r relation,
        ((torn.perform (.solve 1)).network.after [.write "c" 2 1, .watch "a" 3, .solve 1]).Conflicts
          1 ⟨"b", 5, 1⟩ r relation := by
  have hr : Reachable torn := ⟨.standard, empty .standard, _, create_standard, rfl⟩
  have hsolve : (torn.perform (.solve 1)).result = .error (.contradiction ⟨"b", 5, 1⟩) := rfl
  obtain ⟨r, relation, -, hlater⟩ := contradictions_persist hr hsolve
  refine ⟨hr, hsolve, r, relation, (hlater [.write "c" 2 1, .watch "a" 3, .solve 1] ?_).1⟩
  simp only [List.forall_mem_cons]
  exact ⟨.write "c" 2, .watch "a" 3, .solve, List.forall_mem_nil _⟩

end Network

end ConstraintNet
