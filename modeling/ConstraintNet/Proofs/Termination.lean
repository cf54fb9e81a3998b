import ConstraintNet.Proofs.Knowledge
import ConstraintNet.Proofs.Settling

/-!
# Propagation terminates

Writes call relationships and relationships call writes, over a graph that may run in
circles, and passes repeat until one of them marks nothing new. Neither needs a bound.
Every write that goes on makes one more variable known in the digest, and every pass
but the last marks one more relationship for it. The bounds that the programs carry are
never met.
-/

set_option autoImplicit false

namespace ConstraintNet

open Network

variable {d : Digest}

/-- A task carried out by calls inside one another that nothing bounds, and the fault that
stopped it if one did. Counted are the writes that were open at once, at most, and listed
are the variables that writes put a value into, in the order in which they did. -/
inductive Unfolds (d : Digest) :
    Task → Run → Nat → List VariableId → Option Fault → Run → Prop
  | unknown {run : Run} {v : VariableId} {value : Float}
      (hx : run.network.variableAt v = none) :
    Unfolds d (.write v value) run 1 [] (some (.unknownVariable v)) run
  | contradicts {run : Run} {v : VariableId} {value held : Float} {x : Variable}
      (hx : run.network.variableAt v = some x) (hh : x.holding.valueAt d = some held)
      (hc : ¬ (held - value).abs ≤ run.network.config.tolerance) :
    Unfolds d (.write v value) run 1 [] (some (.contradiction ⟨x.name, held, value⟩)) run
  | agrees {run : Run} {v : VariableId} {value held : Float} {x : Variable}
      (hx : run.network.variableAt v = some x) (hh : x.holding.valueAt d = some held)
      (hc : (held - value).abs ≤ run.network.config.tolerance) :
    Unfolds d (.write v value) run 1 [] none run
  | stores {run run' : Run} {v : VariableId} {value : Float} {x : Variable} {depth : Nat}
      {written : List VariableId} {outcome : Option Fault}
      (hx : run.network.variableAt v = some x) (hu : x.holding.valueAt d = none)
      (h : Unfolds d (.each true x.relationships) (run.store d v x value) depth written
        outcome run') :
    Unfolds d (.write v value) run (depth + 1) (v :: written) outcome run'
  | absent {run : Run} {r : RelationshipId} (hr : run.network.relationshipAt r = none) :
    Unfolds d (.solve r) run 0 [] none run
  | waits {run : Run} {r : RelationshipId} {rel : Relationship}
      (hr : run.network.relationshipAt r = some rel)
      (hd : rel.relation.derive (run.network.valueAt d) = .ok .pending) :
    Unfolds d (.solve r) run 0 [] none run
  | refuses {run : Run} {r : RelationshipId} {rel : Relationship} {fault : DeriveFault}
      (hr : run.network.relationshipAt r = some rel)
      (hd : rel.relation.derive (run.network.valueAt d) = .error fault) :
    Unfolds d (.solve r) run 0 [] (some (fault.fault (run.network.render r))) run
  | derives {run run' : Run} {r : RelationshipId} {rel : Relationship} {t : VariableId}
      {value : Float} {depth : Nat} {written : List VariableId}
      (hr : run.network.relationshipAt r = some rel)
      (hd : rel.relation.derive (run.network.valueAt d) = .ok (.derived t value))
      (h : Unfolds d (.write t value) (run.mark r (some d)) depth written none run') :
    Unfolds d (.solve r) run depth written none run'
  | restores {run run' : Run} {r : RelationshipId} {rel : Relationship} {t : VariableId}
      {value : Float} {depth : Nat} {written : List VariableId} {fault : Fault}
      (hr : run.network.relationshipAt r = some rel)
      (hd : rel.relation.derive (run.network.valueAt d) = .ok (.derived t value))
      (h : Unfolds d (.write t value) (run.mark r (some d)) depth written (some fault) run') :
    Unfolds d (.solve r) run depth written (some fault) (run'.mark r rel.marker)
  | done {run : Run} {guarded : Bool} : Unfolds d (.each guarded []) run 0 [] none run
  | skips {run run' : Run} {r : RelationshipId} {rs : List RelationshipId} {depth : Nat}
      {written : List VariableId} {outcome : Option Fault} (hm : run.network.IsMarked d r)
      (h : Unfolds d (.each true rs) run depth written outcome run') :
    Unfolds d (.each true (r :: rs)) run depth written outcome run'
  | turns {run mid run' : Run} {guarded : Bool} {r : RelationshipId}
      {rs : List RelationshipId} {depth depth' : Nat} {written written' : List VariableId}
      {outcome : Option Fault} (hg : guarded → ¬ run.network.IsMarked d r)
      (h : Unfolds d (.solve r) run depth written none mid)
      (h' : Unfolds d (.each guarded rs) mid depth' written' outcome run') :
    Unfolds d (.each guarded (r :: rs)) run (max depth depth') (written ++ written') outcome run'
  | stops {run run' : Run} {guarded : Bool} {r : RelationshipId} {rs : List RelationshipId}
      {depth : Nat} {written : List VariableId} {fault : Fault}
      (hg : guarded → ¬ run.network.IsMarked d r)
      (h : Unfolds d (.solve r) run depth written (some fault) run') :
    Unfolds d (.each guarded (r :: rs)) run depth written (some fault) run'

section Tree

variable {task : Task} {run run' : Run} {depth : Nat} {written : List VariableId}
  {outcome : Option Fault}

theorem Unfolds.cascade (h : Unfolds d task run depth written outcome run') :
    Cascade d task run outcome run' := by
  induction h with
  | unknown hx => exact .unknown hx
  | contradicts hx hh hc => exact .contradicts hx hh hc
  | agrees hx hh hc => exact .agrees hx hh hc
  | stores hx hu _ ih => exact .stores hx hu ih
  | absent hr => exact .absent hr
  | waits hr hd => exact .waits hr hd
  | refuses hr hd => exact .refuses hr hd
  | derives hr hd _ ih => exact .derives hr hd ih
  | restores hr hd _ ih => exact .restores hr hd ih
  | done => exact .done
  | skips hm _ ih => exact .skips hm ih
  | turns hg _ _ ih ih' => exact .turns hg ih ih'
  | stops hg _ ih => exact .stops hg ih

theorem Cascade.unfolds (h : Cascade d task run outcome run') :
    ∃ depth written, Unfolds d task run depth written outcome run' := by
  induction h with
  | unknown hx => exact ⟨_, _, .unknown hx⟩
  | contradicts hx hh hc => exact ⟨_, _, .contradicts hx hh hc⟩
  | agrees hx hh hc => exact ⟨_, _, .agrees hx hh hc⟩
  | stores hx hu _ ih =>
    obtain ⟨_, _, h⟩ := ih
    exact ⟨_, _, .stores hx hu h⟩
  | absent hr => exact ⟨_, _, .absent hr⟩
  | waits hr hd => exact ⟨_, _, .waits hr hd⟩
  | refuses hr hd => exact ⟨_, _, .refuses hr hd⟩
  | derives hr hd _ ih =>
    obtain ⟨_, _, h⟩ := ih
    exact ⟨_, _, .derives hr hd h⟩
  | restores hr hd _ ih =>
    obtain ⟨_, _, h⟩ := ih
    exact ⟨_, _, .restores hr hd h⟩
  | done => exact ⟨_, _, .done⟩
  | skips hm _ ih =>
    obtain ⟨_, _, h⟩ := ih
    exact ⟨_, _, .skips hm h⟩
  | turns hg _ _ ih ih' =>
    obtain ⟨_, _, h⟩ := ih
    obtain ⟨_, _, h'⟩ := ih'
    exact ⟨_, _, .turns hg h h'⟩
  | stops hg _ ih =>
    obtain ⟨_, _, h⟩ := ih
    exact ⟨_, _, .stops hg h⟩

theorem Follows.exists {α : Type} {p : Propagation α} (h : Follows d p task run) :
    ∃ outcome run', Cascade d task run outcome run' := by
  unfold Follows Ends at h
  cases hp : p.run run with
  | ok a run' =>
    rw [hp] at h
    exact ⟨none, run', h⟩
  | error fault run' =>
    rw [hp] at h
    exact ⟨some fault, run', h⟩

theorem exists_unfolds (d : Digest) (task : Task) (run : Run) :
    ∃ depth written outcome run', Unfolds d task run depth written outcome run' := by
  have hcascade : ∃ outcome run', Cascade d task run outcome run' := by
    cases task with
    | write v value => exact (Propagation.follows_write d v value run).exists
    | solve r => exact (Propagation.follows_solveRelationship d r run).exists
    | each guarded rs =>
      cases guarded with
      | false => exact (Propagation.follows_turns d rs run).exists
      | true =>
        exact (Propagation.follows_notifyAll (Propagation.writes_writeWithin d _) rs
          (Nat.lt_succ_self _)).exists
  obtain ⟨outcome, run', h⟩ := hcascade
  obtain ⟨depth, written, h⟩ := h.unfolds
  exact ⟨depth, written, outcome, run', h⟩

theorem Unfolds.unique (h : Unfolds d task run depth written outcome run') {depth' : Nat}
    {written' : List VariableId} {outcome' : Option Fault} {run'' : Run}
    (h' : Unfolds d task run depth' written' outcome' run'') :
    depth' = depth ∧ written' = written ∧ outcome' = outcome ∧ run'' = run' := by
  induction h generalizing depth' written' outcome' run'' with
  | unknown hx | contradicts hx hh hc | agrees hx hh hc => cases h' <;> simp_all
  | stores hx hu h ih =>
    cases h' with
    | stores hx' hu' h' =>
      cases hx.symm.trans hx'
      obtain ⟨rfl, rfl, rfl, rfl⟩ := ih h'
      exact ⟨rfl, rfl, rfl, rfl⟩
    | _ => simp_all
  | absent hr | waits hr hd | refuses hr hd => cases h' <;> simp_all
  | derives hr hd h ih =>
    cases h' with
    | derives hr' hd' h' =>
      cases hr.symm.trans hr'
      cases hd.symm.trans hd'
      exact ih h'
    | restores hr' hd' h' =>
      cases hr.symm.trans hr'
      cases hd.symm.trans hd'
      obtain ⟨-, -, hnone, -⟩ := ih h'
      cases hnone
    | _ => simp_all
  | restores hr hd h ih =>
    cases h' with
    | derives hr' hd' h' =>
      cases hr.symm.trans hr'
      cases hd.symm.trans hd'
      obtain ⟨-, -, hsome, -⟩ := ih h'
      cases hsome
    | restores hr' hd' h' =>
      cases hr.symm.trans hr'
      cases hd.symm.trans hd'
      obtain ⟨rfl, rfl, hfault, rfl⟩ := ih h'
      exact ⟨rfl, rfl, hfault, rfl⟩
    | _ => simp_all
  | done =>
    cases h'
    exact ⟨rfl, rfl, rfl, rfl⟩
  | skips hm h ih =>
    cases h' with
    | skips _ h' => exact ih h'
    | turns hg | stops hg => exact absurd hm (hg rfl)
  | turns hg h _ ih ih' =>
    cases h' with
    | skips hm => exact absurd hm (hg rfl)
    | turns _ k k' =>
      obtain ⟨rfl, rfl, -, rfl⟩ := ih k
      obtain ⟨rfl, rfl, rfl, rfl⟩ := ih' k'
      exact ⟨rfl, rfl, rfl, rfl⟩
    | stops _ k =>
      obtain ⟨-, -, hsome, -⟩ := ih k
      cases hsome
  | stops hg h ih =>
    cases h' with
    | skips hm => exact absurd hm (hg rfl)
    | turns _ k =>
      obtain ⟨-, -, hnone, -⟩ := ih k
      cases hnone
    | stops _ k => exact ih k

/-- A write that stores has one more variable known below it, so the variables that are
unknown at first bound how deep writes nest. -/
theorem Unfolds.depth_le (h : Unfolds d task run depth written outcome run') :
    depth ≤ run.network.unknownCount d + 1 := by
  induction h with
  | unknown | contradicts | agrees => exact Nat.le_add_left _ _
  | @stores run run' v value x depth written outcome hx hu h ih =>
    have hlt := (advance_store hx hu value).unknownCount_lt (v := v) (by simp [hx])
      (by rw [valueAt_eq hx, hu]) (by simp [valueAt_store hx])
    exact Nat.succ_le_succ (ih.trans hlt)
  | absent | waits | refuses | done => exact Nat.zero_le _
  | derives hr _ _ ih | restores hr _ _ ih =>
    exact ih.trans (Nat.succ_le_succ (advance_mark hr).unknownCount_le)
  | skips _ _ ih => exact ih
  | turns _ h _ ih ih' =>
    exact max_le ih (ih'.trans (Nat.succ_le_succ h.cascade.advance.unknownCount_le))
  | stops _ _ ih => exact ih

theorem Unfolds.learned (h : Unfolds d task run depth written outcome run') :
    run.network.Learned d written run'.network := by
  induction h with
  | unknown | contradicts | agrees => exact .nil fun _ => rfl
  | stores hx hu h ih =>
    exact (Learned.store hx hu _).append ih (advance_store hx hu _) h.cascade.advance
  | absent | waits | refuses | done => exact .nil fun _ => rfl
  | derives _ _ _ ih | restores _ _ _ ih => exact ⟨ih.nodup, ih.mem_iff⟩
  | skips _ _ ih => exact ih
  | turns _ h h' ih ih' => exact ih.append ih' h.cascade.advance h'.cascade.advance
  | stops _ _ ih => exact ih

end Tree

def Network.MarksNothing (net : Network) (d : Digest) (net' : Network) : Prop :=
  ∀ r ∈ net.order, net'.IsMarked d r → net.IsMarked d r

/-- Passes made for as long as they mark something, with no bound on their number: how
many were made, and the fault that stopped the last one if one did. -/
inductive Rounds (d : Digest) : Run → Nat → Option Fault → Run → Prop
  | settles {run run' : Run} {depth : Nat} {written : List VariableId}
      (h : Unfolds d (.each false run.network.order) run depth written none run')
      (hn : run.network.MarksNothing d run'.network) :
    Rounds d run 1 none run'
  | stops {run run' : Run} {depth : Nat} {written : List VariableId} {fault : Fault}
      (h : Unfolds d (.each false run.network.order) run depth written (some fault) run') :
    Rounds d run 1 (some fault) run'
  | repeats {run mid run' : Run} {depth made : Nat} {written : List VariableId}
      {outcome : Option Fault}
      (h : Unfolds d (.each false run.network.order) run depth written none mid)
      (hn : ¬ run.network.MarksNothing d mid.network) (h' : Rounds d mid made outcome run') :
    Rounds d run (made + 1) outcome run'

theorem Network.Advance.marksNothing_iff {net net' : Network} (h : Advance d net net') :
    net.MarksNothing d net' ↔ net'.solvedCount d = net.solvedCount d := by
  constructor
  · intro hn
    unfold solvedCount
    rw [h.order]
    exact List.countP_congr fun r hr => ⟨hn r hr, h.isMarked⟩
  · exact fun hc r hr => h.isMarked_of_count hc hr

theorem Rounds.made_le {run run' : Run} {made : Nat} {outcome : Option Fault}
    (h : Rounds d run made outcome run') :
    made + run.network.solvedCount d ≤ run.network.order.length + 1 := by
  induction h with
  | @settles run | @stops run =>
    have hle := run.network.solvedCount_le_length d
    omega
  | repeats h hn _ ih =>
    -- a pass that is followed by another one has marked something new
    have hadv := h.cascade.advance
    have hle := hadv.solvedCount_le
    rw [hadv.marksNothing_iff] at hn
    rw [hadv.order] at ih
    omega

namespace Propagation

variable {run : Run}

theorem ends_rounds (spare : Nat)
    (hs : run.network.order.length ≤ run.network.solvedCount d + spare) :
    Ends (passes d spare) run (fun made run' => Rounds d run made none run')
      fun fault run' => ∃ made, Rounds d run made (some fault) run' := by
  have hstops {run run' : Run} {fault : Fault} (h : Passes d run (some fault) run') :
      ∃ made, Rounds d run made (some fault) run' := by
    obtain ⟨_, _, h⟩ := Cascade.unfolds h
    exact ⟨1, .stops h⟩
  induction spare generalizing run with
  | zero =>
    refine Ends.bind (Ends.mono (follows_pass d run) (fun _ run' h => ?_) fun _ _ h => hstops h)
    obtain ⟨_, _, h⟩ := h.unfolds
    have hadv := h.cascade.advance
    -- Every relationship was marked before the pass.
    have hle := hadv.solvedCount_le
    have hub := run'.network.solvedCount_le_length d
    rw [hadv.order] at hub
    exact .settles h (hadv.marksNothing_iff.mpr (by omega))
  | succ spare ih =>
    refine Ends.bind (Ends.mono (ends_passSettles d run) ?_ fun _ _ h => hstops h)
    rintro settles mid ⟨h, rfl⟩
    obtain ⟨_, _, h⟩ := Cascade.unfolds h
    have hadv := h.cascade.advance
    by_cases hn : run.network.MarksNothing d mid.network
    · rw [decide_eq_true (hadv.marksNothing_iff.mp hn)]
      exact .settles h hn
    · have hle := hadv.solvedCount_le
      have hne := hadv.marksNothing_iff.not.mp hn
      rw [decide_eq_false hne]
      refine Ends.bind (Ends.mono (ih ?_) (fun made run' h' => .repeats h hn h') ?_)
      · rw [hadv.order]
        omega
      · rintro fault run' ⟨made, h'⟩
        exact ⟨made + 1, .repeats h hn h'⟩

theorem ends_solve_rounds (hf : run.network.config.fixpoint) : Ends (solve d) run
    (fun report run' => Rounds d (start d run) report.passes none run')
    fun fault run' => ∃ made, Rounds d (start d run) made (some fault) run' := by
  refine ends_update (ends_network (Ends.bind ?_))
  simp only [hf, if_true]
  have hrounds : Ends (passes d run.network.order.length) (start d run)
      (fun made run' => Rounds d (start d run) made none run')
      fun fault run' => ∃ made, Rounds d (start d run) made (some fault) run' :=
    ends_rounds _ (Nat.le_add_left _ _)
  exact Ends.mono hrounds (fun _ _ h => h) fun _ _ h => h

theorem ends_solve_once (hf : ¬ run.network.config.fixpoint) : Ends (solve d) run
    (fun _ run' => Cascade d (.each false run.network.order) (start d run) none run')
    fun fault run' => Cascade d (.each false run.network.order) (start d run) (some fault) run' := by
  refine ends_update (ends_network (Ends.bind ?_))
  simp only [hf, if_false, Bool.false_eq_true]
  exact Ends.bind (follows_pass d (start d run))

end Propagation

def Outcome.fault? (o : Outcome) : Option Fault :=
  match o.result with
  | .ok _ => none
  | .error fault => some fault

/-- A call came to a run, and was stopped by a fault if the run was. -/
structure Outcome.Reaches (o : Outcome) (outcome : Option Fault) (run : Run) : Prop where
  fault : o.fault? = outcome
  network : o.network = run.network
  fired : o.fired = run.fired

theorem Outcome.reaches_ok {o : Outcome} {answer : Answer} {run : Run}
    (h : o = ⟨.ok answer, run.network, run.fired⟩) : o.Reaches none run := by
  subst h
  exact ⟨rfl, rfl, rfl⟩

theorem Outcome.reaches_error {o : Outcome} {fault : Fault} {run : Run}
    (h : o = ⟨.error fault, run.network, run.fired⟩) : o.Reaches (some fault) run := by
  subst h
  exact ⟨rfl, rfl, rfl⟩

theorem Outcome.reaches_unfolds {α : Type} {p : Propagation α} {net : Network} {task : Task}
    {run : Run} (h : Ends p ⟨net, []⟩ (fun _ run' => Cascade d task run none run')
      fun fault run' => Cascade d task run (some fault) run')
    (answer : α → Answer) : ∃ depth written outcome run',
      Unfolds d task run depth written outcome run' ∧
      (Outcome.ofPropagation answer p net).Reaches outcome run' := by
  rcases Outcome.of_ends h answer with ⟨a, run', hp, h⟩ | ⟨fault, run', hp, h⟩
  · obtain ⟨depth, written, h⟩ := h.unfolds
    exact ⟨depth, written, none, run', h, Outcome.reaches_ok hp⟩
  · obtain ⟨depth, written, h⟩ := h.unfolds
    exact ⟨depth, written, some fault, run', h, Outcome.reaches_error hp⟩

namespace Network

variable {net : Network}

theorem write_unfolds (net : Network) (name : String) {value : Float} (hf : value.isFinite)
    (d : Digest) : ∃ depth written outcome run',
      Unfolds d (.write (net.declare name).1 value) ⟨net.prepared name d, []⟩
        depth written outcome run' ∧
      (net.perform (.write name value d)).Reaches outcome run' := by
  refine Outcome.reaches_unfolds (Ends.mono (ends_write ⟨net, []⟩ name value d) ?_ ?_) .flag
  · exact fun _ _ h => h.2
  · exact fun _ _ h => (h.resolve_left fun hn => hn.1 hf).2

theorem solve_unfolds (hf : ¬ net.config.fixpoint) (d : Digest) :
    ∃ depth written outcome run',
      Unfolds d (.each false net.order) (Propagation.start d ⟨net, []⟩)
        depth written outcome run' ∧
      (net.perform (.solve d)).Reaches outcome run' :=
  Outcome.reaches_unfolds (Propagation.ends_solve_once hf) .report

theorem solve_rounds (hf : net.config.fixpoint) (d : Digest) : ∃ made outcome run',
    Rounds d (Propagation.start d ⟨net, []⟩) made outcome run' ∧
    (net.perform (.solve d)).Reaches outcome run' ∧
    ∀ report, (net.perform (.solve d)).result = .ok (.report report) → report.passes = made := by
  have hends : Ends (Propagation.solve d) ⟨net, []⟩ _ _ := Propagation.ends_solve_rounds hf
  rcases Outcome.of_ends hends .report with ⟨report, run', hp, h⟩ | ⟨fault, run', hp, made, h⟩
  · refine ⟨report.passes, none, run', h, Outcome.reaches_ok hp, fun report' h' => ?_⟩
    have hresult := (congrArg Outcome.result hp).symm.trans h'
    cases hresult
    rfl
  · refine ⟨made, some fault, run', h, Outcome.reaches_error hp, fun report' h' => ?_⟩
    have hresult := (congrArg Outcome.result hp).symm.trans h'
    cases hresult

/-- Propagation terminates, in a digest that is fresh or was used before, over a graph
with or without circles. Nested without any bound, calls come to one end; at no time are
more writes open than variables were unknown when they began, and one; and a value is put
once into every variable that became known, and into no other. Writing a value by name
does just that, and so does a single pass. Repeated without any bound, passes come to an
end as well: where no fault stops them, because the last one marks nothing new; and they
are no more than there were relationships not marked for the digest, and one. -/
theorem propagation_terminates (hr : Reachable net) (d : Digest) :
    (∀ task run, ∃ depth written outcome run',
      Unfolds d task run depth written outcome run' ∧
      depth ≤ run.network.unknownCount d + 1 ∧
      run.network.Learned d written run'.network ∧
      ∀ depth' written' outcome' run'', Unfolds d task run depth' written' outcome' run'' →
        depth' = depth ∧ written' = written ∧ outcome' = outcome ∧ run'' = run') ∧
    (∀ name value, value.isFinite → ∃ depth written outcome run',
      Unfolds d (.write (net.declare name).1 value) ⟨net.prepared name d, []⟩
        depth written outcome run' ∧
      (net.perform (.write name value d)).Reaches outcome run') ∧
    (¬ net.config.fixpoint → ∃ depth written outcome run',
      Unfolds d (.each false net.order) (Propagation.start d ⟨net, []⟩)
        depth written outcome run' ∧
      (net.perform (.solve d)).Reaches outcome run') ∧
    (net.config.fixpoint → ∃ made outcome run',
      Rounds d (Propagation.start d ⟨net, []⟩) made outcome run' ∧
      (net.perform (.solve d)).Reaches outcome run' ∧
      (∀ report, (net.perform (.solve d)).result = .ok (.report report) → report.passes = made) ∧
      made ≤ (net.relationships.live.countP fun rel => !rel.isMarked d) + 1) := by
  refine ⟨fun task run => ?_, fun name value hfinite => write_unfolds net name hfinite d,
    fun hf => solve_unfolds hf d, fun hf => ?_⟩
  · obtain ⟨depth, written, outcome, run', h⟩ := exists_unfolds d task run
    exact ⟨depth, written, outcome, run', h, h.depth_le, h.learned, fun _ _ _ _ => h.unique⟩
  · obtain ⟨made, outcome, run', h, hreaches, hpasses⟩ := solve_rounds hf d
    refine ⟨made, outcome, run', h, hreaches, hpasses, ?_⟩
    have hle : made + net.solvedCount d ≤ net.order.length + 1 := h.made_le
    rw [← hr.integrity.pending_live d]
    omega

def circle : Network :=
  (empty .standard).after [.equals (.name "b") (.name "a"), .equals (.name "c") (.name "b"),
    .equals (.name "a") (.name "c"), .equals (.name "a") (.name "a"), .assign "a" 1]

theorem propagation_terminates_circle :
    Reachable circle ∧ circle.config.fixpoint ∧ (1 : Float).isFinite ∧
      (circle.perform (.solve 1)).result = .ok (.report ⟨1, 2, 4, 0⟩) ∧
      (∃ outcome run', Rounds 1 (Propagation.start 1 ⟨circle, []⟩) 2 outcome run' ∧
        (circle.perform (.solve 1)).Reaches outcome run') ∧
      ∃ depth written outcome run',
        Unfolds 1 (.write (circle.declare "b").1 1) ⟨circle.prepared "b" 1, []⟩
          depth written outcome run' ∧
        (circle.perform (.write "b" 1 1)).Reaches outcome run' := by
  have hr : Reachable circle := ⟨.standard, empty .standard, _, create_standard, rfl⟩
  have hfinite : (1 : Float).isFinite := by decide +kernel
  have hsolve : (circle.perform (.solve 1)).result = .ok (.report ⟨1, 2, 4, 0⟩) := rfl
  obtain ⟨-, hwrite, -, hpasses⟩ := propagation_terminates hr 1
  obtain ⟨made, outcome, run', hrounds, hreaches, hmade, -⟩ := hpasses rfl
  obtain rfl : 2 = made := hmade _ hsolve
  exact ⟨hr, rfl, hfinite, hsolve, ⟨outcome, run', hrounds, hreaches⟩, hwrite "b" 1 hfinite⟩

end Network

end ConstraintNet
