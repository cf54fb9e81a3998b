import ConstraintNet.Proofs.Settling

/-!
# A solved digest is a fixpoint

A digest that nothing was solved in before settles completely, and solving it again
changes nothing. A digest that was used before may hide what relationships have to
say whose markers were left behind by edits of their variables.
-/

set_option autoImplicit false

namespace ConstraintNet

open Network

variable {d : Digest}

theorem Run.mark_eq_self {run : Run} {r : RelationshipId} {rel : Relationship}
    (hr : run.network.relationshipAt r = some rel) (hm : rel.marker = some d) :
    run.mark r (some d) = run := by
  have hself : run.network.relationships.modify r.index (·.mark (some d)) =
      run.network.relationships := by
    apply Arena.modify_eq_self
    intro x hx
    change run.network.relationshipAt r = some x at hx
    rw [hr] at hx
    cases hx
    exact Network.mark_eq_self hm
  unfold Run.mark updateRelationship
  rw [hself]

/-- What is marked knows all its operands, and what is not marked has nothing to derive:
no relationship has a value left for a variable that is unknown. -/
def Network.Inert (net : Network) (d : Digest) : Prop :=
  ∀ r rel, net.relationshipAt r = some rel →
    (rel.isMarked d → ∀ v ∈ rel.relation.operands, (net.valueAt d v).isSome) ∧
    (¬ rel.isMarked d → rel.relation.derive (net.valueAt d) = .ok .pending)

/-- Every relationship says nothing, or what is held. -/
def Network.AllConsistent (net : Network) (d : Digest) : Prop :=
  ∀ r rel, net.relationshipAt r = some rel → net.Consistent d rel

def Network.Steady (net : Network) (d : Digest) : Prop :=
  ∀ r rel, net.relationshipAt r = some rel → net.SettledAt d rel

theorem Network.Steady.inert {net : Network} (hs : net.Steady d) : net.Inert d :=
  fun r rel hr => ⟨(hs r rel hr).known, (hs r rel hr).waiting⟩

theorem Network.Steady.allConsistent {net : Network} (hs : net.Steady d) : net.AllConsistent d :=
  fun r rel hr => (hs r rel hr).consistent

theorem Passes.inert_of_grounded {run run' : Run} (h : Passes d run none run')
    (hi : run.network.Integrity) (hg : run.network.Grounded d fun _ => False) :
    run'.network.Inert d := by
  have hg' := Cascade.grounded h _ hg
  intro r rel hrel
  constructor
  · intro hm v hv
    exact hg' r ((isMarked_eq hrel).trans hm) id v ⟨rel, hrel, hv⟩
  · intro hm
    exact h.quiet hi (fun hmarked => hm ((isMarked_eq hrel).symm.trans hmarked)) rel hrel

theorem Cascade.write_known {run run' : Run} {t : VariableId} {value held : Float}
    {outcome : Option Fault} (h : Cascade d (.write t value) run outcome run')
    (hk : run.network.valueAt d t = some held) :
    run' = run ∧ ((held - value).abs ≤ run.network.config.tolerance → outcome = none) := by
  cases h with
  | unknown hx => simp [valueAt, hx] at hk
  | contradicts hx hh hc =>
    rw [valueAt_eq hx, hh] at hk
    cases hk
    exact ⟨rfl, fun hle => absurd hle hc⟩
  | agrees => exact ⟨rfl, fun _ => rfl⟩
  | stores hx hu =>
    rw [valueAt_eq hx, hu] at hk
    cases hk

theorem Cascade.inert {run run' : Run} {r : RelationshipId} {outcome : Option Fault}
    (h : Cascade d (.solve r) run outcome run') (hs : run.network.Inert d) :
    run' = run ∧ ((∀ rel, run.network.relationshipAt r = some rel →
      run.network.Consistent d rel) → outcome = none) := by
  have hwrite {rel : Relationship} {t : VariableId} {value : Float} {outcome : Option Fault}
      {run' : Run} (hr : run.network.relationshipAt r = some rel)
      (hd : rel.relation.derive (run.network.valueAt d) = .ok (.derived t value))
      (h : Cascade d (.write t value) (run.mark r (some d)) outcome run') :
      rel.marker = some d ∧ run' = run ∧ (run.network.Consistent d rel → outcome = none) := by
    have hm : rel.isMarked d := by
      by_contra hn
      have hwait := (hs r rel hr).2 hn
      rw [hd] at hwait
      cases hwait
    have hmarker := isMarked_iff_marker.mp hm
    have hknown := (hs r rel hr).1 hm t (Relation.derive_target hd).1
    obtain ⟨held, hheld⟩ := Option.isSome_iff_exists.mp hknown
    rw [Run.mark_eq_self hr hmarker] at h
    obtain ⟨hrun, hagrees⟩ := h.write_known hheld
    refine ⟨hmarker, hrun, fun hc => ?_⟩
    rcases hc with hp | ⟨t', value', held', hd', hheld', hle⟩
    · rw [hd] at hp
      cases hp
    · rw [hd] at hd'
      cases hd'
      rw [hheld] at hheld'
      cases hheld'
      exact hagrees hle
  cases h with
  | absent | waits => exact ⟨rfl, fun _ => rfl⟩
  | refuses hr hd =>
    refine ⟨rfl, fun hc => ?_⟩
    rcases hc _ hr with hp | ⟨t, value, held, hd', -⟩
    · rw [hd] at hp
      cases hp
    · rw [hd] at hd'
      cases hd'
  | derives hr hd h => exact ⟨(hwrite hr hd h).2.1, fun _ => rfl⟩
  | restores hr hd h =>
    obtain ⟨hmarker, hrun, hagrees⟩ := hwrite hr hd h
    rw [hrun, hmarker, Run.mark_eq_self hr hmarker]
    exact ⟨rfl, fun hc => hagrees (hc _ hr)⟩

theorem Cascade.inert_each {run run' : Run} {guarded : Bool} {rs : List RelationshipId}
    {outcome : Option Fault} (h : Cascade d (.each guarded rs) run outcome run')
    (hs : run.network.Inert d) :
    run' = run ∧ (run.network.AllConsistent d → outcome = none) := by
  induction rs generalizing run with
  | nil =>
    cases h
    exact ⟨rfl, fun _ => rfl⟩
  | cons r rs ih =>
    cases h with
    | skips _ h => exact ih h hs
    | turns _ h h' =>
      obtain ⟨rfl, -⟩ := h.inert hs
      exact ih h' hs
    | stops _ h =>
      obtain ⟨hrun, hnone⟩ := h.inert hs
      exact ⟨hrun, fun hc => hnone (hc r)⟩

namespace Propagation

variable {run : Run}

theorem ends_passes_inert (hs : run.network.Inert d) (spare : Nat) :
    Ends (passes d spare) run (fun made run' => made = 1 ∧ run' = run)
      fun _ run' => run' = run ∧ ¬ run.network.AllConsistent d := by
  have hpass {outcome : Option Fault} {run' : Run} (h : Passes d run outcome run') :
      run' = run ∧ (run.network.AllConsistent d → outcome = none) := Cascade.inert_each h hs
  have hfault {fault : Fault} {run' : Run} (h : Passes d run (some fault) run') :
      run' = run ∧ ¬ run.network.AllConsistent d :=
    (hpass h).imp_right fun hnone hc => Option.some_ne_none _ (hnone hc)
  cases spare with
  | zero =>
    refine Ends.bind (Ends.mono (follows_pass d run) ?_ fun _ _ h => hfault h)
    exact fun _ run' h => ⟨rfl, (hpass h).1⟩
  | succ spare =>
    refine Ends.bind (Ends.mono (ends_passSettles d run) ?_ fun _ _ h => hfault h)
    rintro settles run' ⟨h, rfl⟩
    obtain ⟨rfl, -⟩ := hpass h
    rw [decide_eq_true rfl]
    exact ⟨rfl, rfl⟩

end Propagation

namespace Network

variable {net : Network}

theorem solve_idle (hs : net.Steady d) (hd : d ≤ net.lastDigest) :
    net.perform (.solve d) = ⟨.ok (.report ⟨d, 1, net.solvedCount d,
      net.order.length - net.solvedCount d⟩), net, []⟩ := by
  have hstart : Propagation.start d ⟨net, []⟩ = ⟨net, []⟩ := by
    simp [Propagation.start, max_eq_left hd]
  have hends : Ends (Propagation.solve d) ⟨net, []⟩
      (fun report run' => report = ⟨d, 1, net.solvedCount d,
        net.order.length - net.solvedCount d⟩ ∧ run' = ⟨net, []⟩) fun _ _ => False := by
    refine Propagation.ends_update (Propagation.ends_network (Ends.bind ?_))
    have hsteady : (Propagation.start d ⟨net, []⟩).network.Steady d := by rwa [hstart]
    refine Ends.mono (Propagation.ends_passes_inert hsteady.inert _) ?_
      fun _ _ h => h.2 hsteady.allConsistent
    rintro made run' ⟨rfl, rfl⟩
    rw [hstart]
    exact ⟨rfl, rfl⟩
  rcases Outcome.of_ends hends .report with ⟨report, run', hp, rfl, rfl⟩ | ⟨_, _, _, h⟩
  · exact hp
  · exact h.elim

structure Fresh (net : Network) (d : Digest) : Prop where
  unsolved : ∀ v x, net.variableAt v = some x → x.holding.digest? ≠ some d
  unmarked : ∀ r rel, net.relationshipAt r = some rel → ¬ rel.isMarked d

theorem WellHeld.fresh (hw : net.WellHeld) (hd : net.lastDigest < d) : net.Fresh d := by
  constructor
  · intro v x hx hdigest
    cases hh : x.holding with
    | solved value at? =>
      simp only [hh, Holding.digest?] at hdigest
      rw [hdigest] at hh
      exact absurd ((hw.held v x hx).digest_le hh) (Nat.not_le_of_lt hd)
    | _ => simp [hh, Holding.digest?] at hdigest
  · intro r rel hr hm
    have hle := hw.marked r rel hr d (isMarked_iff_marker.mp hm)
    exact absurd hle (Nat.not_le_of_lt hd)

theorem Fresh.not_isMarked (h : net.Fresh d) (r : RelationshipId) : ¬ net.IsMarked d r := by
  intro hm
  obtain ⟨rel, hr, hmarker⟩ := isMarked_iff.mp hm
  exact h.unmarked r rel hr (isMarked_iff_marker.mpr hmarker)

theorem Fresh.not_stale (h : net.Fresh d) (r : RelationshipId) : ¬ net.Stale d r :=
  fun hs => h.not_isMarked r hs.1

/-- Every digest beyond the last one is fresh. In a fresh digest a solve that answers
leaves every relationship with nothing to say or with what is held; the marked ones
know all their operands, the others wait, and the report counts the two groups.
Solving again makes one pass, which changes nothing and tells no watch. -/
theorem fresh_digest_settles (hr : Reachable net) (hf : net.config.fixpoint) :
    (∀ d, net.lastDigest < d → net.Fresh d) ∧
    ∀ d report, net.Fresh d → (net.perform (.solve d)).result = .ok (.report report) →
      let after := (net.perform (.solve d)).network
      (∀ r rel, after.relationshipAt r = some rel → after.SettledAt d rel) ∧
      report.solved = after.relationships.live.countP (·.isMarked d) ∧
      report.pending = after.relationships.live.countP (!·.isMarked d) ∧
      after.perform (.solve d) = ⟨.ok (.report { report with passes := 1 }), after, []⟩ := by
  refine ⟨fun d hd => hr.wellHeld.fresh hd, fun d report hfresh h => ?_⟩
  have hs := solve_settles hr.integrity hf h
  have hi := (hr.perform (.solve d)).integrity
  have hsteady : (net.perform (.solve d)).network.Steady d := fun r rel hrel =>
    hs.settled r rel hrel (hfresh.not_stale r)
  refine ⟨hsteady, ?_, ?_, ?_⟩
  · rw [hs.solved, hi.solvedCount_live]
  · rw [hs.pending, hi.pending_live]
  · have hlast : d ≤ (net.perform (.solve d)).network.lastDigest := by
      rw [hs.advance.lastDigest]
      exact le_max_right _ _
    rw [solve_idle hsteady hlast, ← hs.pending, ← hs.solved, ← hs.digest]

def pinnedPair : Network :=
  (empty .standard).after [.equals (.name "b") (.name "a"), .assign "a" 1]

theorem reachable_pinnedPair : Reachable pinnedPair :=
  ⟨.standard, empty .standard, _, create_standard, rfl⟩

theorem fresh_digest_settles_pinnedPair :
    Reachable pinnedPair ∧ pinnedPair.config.fixpoint ∧ pinnedPair.Fresh 1 ∧
      (pinnedPair.perform (.solve 1)).result = .ok (.report ⟨1, 2, 1, 0⟩) ∧
      (pinnedPair.perform (.solve 1)).network.perform (.solve 1) =
        ⟨.ok (.report ⟨1, 1, 1, 0⟩), (pinnedPair.perform (.solve 1)).network, []⟩ := by
  have hsettles := fresh_digest_settles reachable_pinnedPair rfl
  have hfresh : pinnedPair.Fresh 1 := hsettles.1 1 (by decide +kernel)
  have hsolve : (pinnedPair.perform (.solve 1)).result = .ok (.report ⟨1, 2, 1, 0⟩) := rfl
  exact ⟨reachable_pinnedPair, rfl, hfresh, hsolve, (hsettles.2 1 _ hfresh hsolve).2.2.2⟩

theorem stale_of_solve {r : RelationshipId}
    (h : (net.perform (.solve d)).network.Stale d r) : net.Stale d r := by
  by_contra hs
  have hg : (net.perform (.solve d)).network.Grounded d (net.Stale d) := by
    have hstart : (Propagation.start d ⟨net, []⟩).network.Grounded d (net.Stale d) :=
      grounded_stale net d
    obtain ⟨mid, run', outcome, hpre, hlast, hnetwork, -⟩ := net.solve_passes d
    rw [hnetwork]
    exact Cascade.grounded hlast _ (Passed.grounded hpre hstart)
  obtain ⟨hm, v, ht, hv⟩ := h
  have hknown := hg r hm hs v ht
  rw [hv] at hknown
  cases hknown

theorem marked_of_settled (hi : net.Integrity)
    (hp : net.order.length - net.solvedCount d = 0) {r : RelationshipId} {rel : Relationship}
    (hr : net.relationshipAt r = some rel) : rel.isMarked d := by
  have hall : net.solvedCount d = net.order.length := by
    have hle := net.solvedCount_le_length d
    omega
  have hmem : r ∈ net.order := by simp [hi.mem_order, hr]
  have hm := List.countP_eq_length.mp hall r hmem
  rwa [hr] at hm

theorem Settles.unknown_iff {after : Network} {report : Report} {r : RelationshipId}
    {rel : Relationship} (h : net.Settles d report after) (hr : after.relationshipAt r = some rel)
    {t : VariableId} {value : Float}
    (hd : rel.relation.derive (after.valueAt d) = .ok (.derived t value)) :
    after.valueAt d t = none ↔ after.Stale d r := by
  obtain ⟨ht, hothers⟩ := Relation.derive_target hd
  constructor
  · intro hunknown
    have hm : after.IsMarked d r := by
      by_contra hm
      have hwait := h.quiet r hm rel hr
      rw [hd] at hwait
      cases hwait
    exact ⟨hm, t, (touches_iff_mem hr).mpr ht, hunknown⟩
  · rintro ⟨-, v, hv, hunknown⟩
    -- All operands but the target are known, so the unknown one is the target.
    by_cases hvt : v = t
    · rw [← hvt]
      exact hunknown
    · have hknown := hothers v ((touches_iff_mem hr).mp hv) hvt
      rw [hunknown] at hknown
      cases hknown

/-- In a digest that was used before, a solve makes no relationship stale. If it answers,
the relationships that are stale are exactly those that would derive a value for an
unknown variable, where they derive one, and in a digest reported as settled exactly
those with an unknown operand; one that was not stale before agrees with what is held. -/
theorem solve_misses_only_stale (hr : Reachable net) (hf : net.config.fixpoint) (d : Digest) :
    let after := (net.perform (.solve d)).network
    (∀ r, after.Stale d r → net.Stale d r) ∧
    ∀ report, (net.perform (.solve d)).result = .ok (.report report) →
      ∀ r rel, after.relationshipAt r = some rel →
        (∀ t value, rel.relation.derive (after.valueAt d) = .ok (.derived t value) →
          (after.valueAt d t = none ↔ after.Stale d r)) ∧
        (report.isSettled →
          ((∀ v ∈ rel.relation.operands, (after.valueAt d v).isSome) ↔ ¬ after.Stale d r)) ∧
        (¬ net.Stale d r → after.Consistent d rel) := by
  refine ⟨fun r => stale_of_solve, fun report h r rel hrel => ?_⟩
  have hs := solve_settles hr.integrity hf h
  refine ⟨fun t value hd => hs.unknown_iff hrel hd, fun hdone => ?_, fun hstale => ?_⟩
  · have hzero : report.pending = 0 := by simpa [Report.isSettled] using hdone
    have hm := marked_of_settled (hr.perform (.solve d)).integrity (hs.pending ▸ hzero) hrel
    rw [stale_iff hrel ((isMarked_eq hrel).trans hm), not_not]
  · exact (hs.settled r rel hrel hstale).consistent

def extendedPair : Network := pinnedPair.after [.solve 1, .equals (.name "c") (.name "b")]

theorem solve_misses_only_stale_extendedPair :
    Reachable extendedPair ∧ extendedPair.config.fixpoint ∧ ¬ extendedPair.Stale 1 ⟨1⟩ ∧
      (extendedPair.perform (.solve 1)).result = .ok (.report ⟨1, 2, 2, 0⟩) ∧
      (extendedPair.perform (.solve 1)).network.Consistent 1 ⟨.equality ⟨2⟩ ⟨0⟩, some 1⟩ := by
  have hr : Reachable extendedPair :=
    ⟨.standard, empty .standard, [.equals (.name "b") (.name "a"), .assign "a" 1, .solve 1,
      .equals (.name "c") (.name "b")], create_standard, rfl⟩
  have hunmarked : extendedPair.IsMarked 1 ⟨1⟩ = false := rfl
  have hs : ¬ extendedPair.Stale 1 ⟨1⟩ := by
    rintro ⟨hm, -⟩
    rw [hunmarked] at hm
    cases hm
  have hsolve : (extendedPair.perform (.solve 1)).result = .ok (.report ⟨1, 2, 2, 0⟩) := rfl
  exact ⟨hr, rfl, hs, hsolve,
    ((solve_misses_only_stale hr rfl 1).2 _ hsolve ⟨1⟩ ⟨.equality ⟨2⟩ ⟨0⟩, some 1⟩ rfl).2.2 hs⟩

def clearedChain : Network :=
  (empty .standard).after [.equals (.name "c") (.name "b"), .equals (.name "b") (.name "a"),
    .assign "a" 1, .solve 1, .clear "b", .clear "c"]

/-- A stale marker can hide a value: the digest is reported as settled, and yet `c = b`
would derive a value for `c`, which has none. -/
theorem stale_marker_hides_value :
    Reachable clearedChain ∧ clearedChain.config.fixpoint ∧
      (clearedChain.perform (.solve 1)).result = .ok (.report ⟨1, 1, 2, 0⟩) ∧
      (⟨1, 1, 2, 0⟩ : Report).isSettled ∧
      ∃ r rel t value, (clearedChain.perform (.solve 1)).network.relationshipAt r = some rel ∧
        rel.relation.derive ((clearedChain.perform (.solve 1)).network.valueAt 1) =
          .ok (.derived t value) ∧
        (clearedChain.perform (.solve 1)).network.valueAt 1 t = none :=
  ⟨⟨.standard, empty .standard, _, create_standard, rfl⟩, rfl, rfl, rfl, ⟨0⟩,
    ⟨.equality ⟨0⟩ ⟨1⟩, some 1⟩, ⟨0⟩, 1, rfl, rfl, rfl⟩

end Network

end ConstraintNet
