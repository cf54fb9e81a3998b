import ConstraintNet.Proofs.Passes
import ConstraintNet.Proofs.Teardown

/-!
# Reachable networks

Every call makes elementary edits only, failed ones included, so what edits keep
holds of every network that a host can come to.
-/

set_option autoImplicit false

namespace ConstraintNet

open Network

variable {d : Digest} {net : Network}

def Task.Finite : Task → Prop
  | .write _ value => value.isFinite
  | .solve _ | .each _ _ => True

theorem Cascade.edits {task : Task} {run run' : Run} {outcome : Option Fault}
    (h : Cascade d task run outcome run') (hf : task.Finite) (hw : run.network.WellHeld)
    (hd : d ≤ run.network.lastDigest) : Edits run.network run'.network := by
  have hmark (r : RelationshipId) (run : Run) (hd : d ≤ run.network.lastDigest) :
      Edit run.network (run.mark r (some d)).network :=
    .mark run.network r (some d) fun e he => Option.some.inj he ▸ hd
  induction h with
  | unknown => exact .refl
  | contradicts => exact .refl
  | agrees => exact .refl
  | @stores run run' v value x outcome hx hu _ ih =>
    have he : Edit run.network (run.store d v x value).network := .settle _ hx hu hf hd
    exact .head he (ih trivial (he.wellHeld hw) hd)
  | absent => exact .refl
  | waits => exact .refl
  | refuses => exact .refl
  | @derives run run' r rel t value hr hderive _ ih =>
    have he := hmark r run hd
    exact .head he (ih (Relation.isFinite_of_derive hderive) (he.wellHeld hw) hd)
  | @restores run run' r rel t value fault hr hderive h ih =>
    have he := hmark r run hd
    have hs := ih (Relation.isFinite_of_derive hderive) (he.wellHeld hw) hd
    refine (Relation.ReflTransGen.head he hs).tail (.mark run'.network r rel.marker fun e hm => ?_)
    rw [h.advance.lastDigest]
    exact hw.marked r rel hr e hm
  | done => exact .refl
  | skips _ _ ih => exact ih trivial hw hd
  | turns _ h _ ih ih' =>
    have hs := ih trivial hw hd
    exact hs.trans (ih' trivial (hs.wellHeld hw) (h.advance.lastDigest ▸ hd))
  | stops _ _ ih => exact ih trivial hw hd

theorem Passed.edits {run run' : Run} (h : Passed d run run') (hw : run.network.WellHeld)
    (hd : d ≤ run.network.lastDigest) : Edits run.network run'.network := by
  induction h with
  | refl => exact .refl
  | tail hpre hlast ih =>
    have hadv := Passed.advance hpre
    exact ih.trans (hlast.edits trivial (ih.wellHeld hw) (hadv.lastDigest ▸ hd))

/-- Whatever comes of a program of propagation, it has made edits only. -/
def Drives {α : Type} (p : Propagation α) (run : Run) : Prop :=
  Ends p run (fun _ run' => Edits run.network run'.network)
    fun _ run' => Edits run.network run'.network

theorem drives_solve {run : Run} (hw : run.network.WellHeld) (d : Digest) :
    Drives (Propagation.solve d) run := by
  have hs : Edits run.network (Propagation.start d run).network := .single (.see run.network d)
  have hd : d ≤ (Propagation.start d run).network.lastDigest := le_max_right _ _
  have hrun {outcome : Option Fault} {mid run' : Run}
      (hpre : Passed d (Propagation.start d run) mid) (hlast : Passes d mid outcome run') :
      Edits run.network run'.network := by
    have hmid := hs.trans (Passed.edits hpre (hs.wellHeld hw) hd)
    refine hmid.trans (hlast.edits trivial (Edits.wellHeld hmid hw) ?_)
    rw [(Passed.advance hpre).lastDigest]
    exact hd
  refine Ends.mono (Propagation.ends_solve d run) ?_ ?_
  · intro report run' h
    obtain ⟨mid, hpre, hlast, -⟩ := h.passed
    exact hrun hpre hlast
  · rintro fault run' ⟨mid, hpre, hlast⟩
    exact hrun hpre hlast

def Network.prepared (net : Network) (name : String) (d : Digest) : Network :=
  { (net.declare name).2 with lastDigest := max (net.declare name).2.lastDigest d }

theorem edits_prepared (net : Network) (name : String) (d : Digest) : Edits net (net.prepared name d) :=
  (grows_declare name net).edits.tail (.see _ d)

theorem ends_write (run : Run) (name : String) (value : Float) (d : Digest) :
    Ends (Network.write name value d) run
      (fun _ run' => value.isFinite ∧ Cascade d (.write (run.network.declare name).1 value)
        { run with network := run.network.prepared name d } none run')
      fun fault run' => ¬ value.isFinite ∧ run' = run ∧
          fault = .invalidValue (.cannotHold name value) ∨
        value.isFinite ∧ Cascade d (.write (run.network.declare name).1 value)
          { run with network := run.network.prepared name d } (some fault) run' := by
  unfold Network.write
  by_cases hf : value.isFinite
  · simp only [hf, Bool.not_true, Bool.false_eq_true, if_false]
    have h := Propagation.follows_write d (run.network.declare name).1 value
      { run with network := run.network.prepared name d }
    exact Ends.mono h (fun _ _ h => ⟨trivial, h⟩) fun _ _ h => .inr ⟨trivial, h⟩
  · simp only [hf, Bool.not_false, if_true]
    exact .inl ⟨Bool.false_ne_true, rfl, rfl⟩

theorem drives_write {run : Run} (hw : run.network.WellHeld) (name : String) (value : Float)
    (d : Digest) : Drives (Network.write name value d) run := by
  have hs := edits_prepared run.network name d
  have hd : d ≤ (run.network.prepared name d).lastDigest := le_max_right _ _
  have hrun {outcome : Option Fault} {run' : Run} (hf : value.isFinite)
      (h : Cascade d (.write (run.network.declare name).1 value)
        { run with network := run.network.prepared name d } outcome run') :
      Edits run.network run'.network :=
    hs.trans (h.edits hf (Edits.wellHeld hs hw) hd)
  refine Ends.mono (ends_write run name value d) (fun _ run' h => hrun h.1 h.2) ?_
  rintro fault run' (⟨-, rfl, -⟩ | h)
  · exact .refl
  · exact hrun h.1 h.2

theorem Outcome.of_ends {α : Type} {p : Propagation α} {good : α → Run → Prop}
    {bad : Fault → Run → Prop} (h : Ends p ⟨net, []⟩ good bad) (answer : α → Answer) :
    (∃ a run', Outcome.ofPropagation answer p net =
        ⟨.ok (answer a), run'.network, run'.fired⟩ ∧ good a run') ∨
      ∃ fault run', Outcome.ofPropagation answer p net =
        ⟨.error fault, run'.network, run'.fired⟩ ∧ bad fault run' := by
  unfold Ends at h
  unfold Outcome.ofPropagation
  cases hr : p.run ⟨net, []⟩ with
  | ok a run' =>
    rw [hr] at h
    exact .inl ⟨a, run', rfl, h⟩
  | error fault run' =>
    rw [hr] at h
    exact .inr ⟨fault, run', rfl, h⟩

theorem Outcome.build_of_ends {α : Type} {p : Build α} {good : α → Network → Prop}
    {bad : Fault → Network → Prop} (h : Ends p net good bad) (answer : α → Answer) :
    (∃ a net', Outcome.ofBuild answer p net = ⟨.ok (answer a), net', []⟩ ∧ good a net') ∨
      ∃ fault net', Outcome.ofBuild answer p net = ⟨.error fault, net', []⟩ ∧
        bad fault net' := by
  unfold Ends at h
  unfold Outcome.ofBuild
  cases hr : p.run net with
  | ok a net' =>
    rw [hr] at h
    exact .inl ⟨a, net', rfl, h⟩
  | error fault net' =>
    rw [hr] at h
    exact .inr ⟨fault, net', rfl, h⟩

theorem Outcome.build_of_isOk {α : Type} {p : Build α} {good : α → Network → Prop}
    {bad : Fault → Network → Prop} (h : Ends p net good bad) (answer : α → Answer)
    (hok : (Outcome.ofBuild answer p net).result.isOk) :
    ∃ a net', Outcome.ofBuild answer p net = ⟨.ok (answer a), net', []⟩ ∧ good a net' := by
  rcases Outcome.build_of_ends h answer with hgood | ⟨fault, net', he, -⟩
  · exact hgood
  · rw [he] at hok
    cases hok

theorem Outcome.refused {α : Type} {p : Build α} {good : α → Network → Prop} {answer : α → Answer}
    {fault : Fault} (h : Ends p net good fun _ net' => net' = net)
    (hfault : (Outcome.ofBuild answer p net).result = .error fault) :
    Outcome.ofBuild answer p net = ⟨.error fault, net, []⟩ := by
  rcases Outcome.build_of_ends h answer with ⟨a, net', he, -⟩ | ⟨fault', net', he, rfl⟩
  · rw [he] at hfault
    cases hfault
  · rw [he] at hfault ⊢
    cases hfault
    rfl

namespace Network

theorem perform_solve (net : Network) (d : Digest) :
    (∃ report run', net.perform (.solve d) = ⟨.ok (.report report), run'.network, run'.fired⟩ ∧
      Propagation.Answered d ⟨net, []⟩ report run') ∨
    ∃ fault run', net.perform (.solve d) = ⟨.error fault, run'.network, run'.fired⟩ ∧
      Propagation.Stopped d ⟨net, []⟩ fault run' :=
  Outcome.of_ends (Propagation.ends_solve d ⟨net, []⟩) .report

theorem solve_passes (net : Network) (d : Digest) : ∃ mid run' outcome,
    Passed d (Propagation.start d ⟨net, []⟩) mid ∧ Passes d mid outcome run' ∧
      (net.perform (.solve d)).network = run'.network ∧
      (net.perform (.solve d)).fired = run'.fired := by
  rcases net.perform_solve d with ⟨report, run', hp, h⟩ | ⟨fault, run', hp, mid, hpre, hlast⟩
  · obtain ⟨mid, hpre, hlast, -⟩ := h.passed
    exact ⟨mid, run', none, hpre, hlast, by rw [hp], by rw [hp]⟩
  · exact ⟨mid, run', some fault, hpre, hlast, by rw [hp], by rw [hp]⟩

theorem edits_watch (name : String) (w : WatchId) : Edits net (net.watch name w) :=
  (grows_declare name net).edits.tail (.watch _ _ w)

theorem makes_clear (hi : net.Integrity) (name : String) :
    Makes Edit (modify (clear · name)) net fun _ net' => net' = net.clear name :=
  makes_modifyGet (edits_clear hi name) rfl

/-- The old definition goes before the new one comes, and the relationship that defines a
variable is the last one made. -/
theorem makes_definition (hi : net.Integrity) (name text : String) :
    Makes Edit (Build.redefine name (.expression text)) net fun _ _ => True := by
  refine makes_unless _ fun _ => makes_unless _ fun _ => ?_
  apply (adds_parse text).edits.bind
  intro e mid _ hmid
  obtain ⟨-, rfl, -⟩ := hmid
  apply (adds_ensure e).edits.bind
  intro _ mid _ hmid
  obtain ⟨-, rfl, -⟩ := hmid
  apply (makes_clear hi name).bind
  rintro _ cleared he rfl
  replace hi := Edits.integrity he hi
  apply (adds_declare hi name).edits.bind
  intro target before he ht
  replace hi := Edits.integrity he hi
  apply (adds_lower hi e).edits.bind
  intro root lowered he hr
  have hlive := hr.1.live ht.2
  refine (adds_relate (.equality target root) ?_).edits.bind fun r grown _ hg => ?_
  · simp [Relation.operands, Relation.result, Relation.arguments, hlive, hr.2]
  · refine makes_modifyGet (.single (.define grown target r (hg.1.live hlive) ?_)) trivial
    exact ⟨_, root, hg.2, rfl⟩

theorem makes_redefine (hi : net.Integrity) (name : String) (setting : Setting) :
    Makes Edit (Build.redefine name setting) net fun _ _ => True := by
  cases setting with
  | number value =>
    refine makes_unless _ fun _ => makes_unless _ fun _ => (makes_clear hi name).bind ?_
    intro _ mid _ _
    exact makes_assign name value (by simp)
  | expression text => exact makes_definition hi name text

theorem made_ofBuild {α : Type} {kind : Network → Network → Prop} {p : Build α}
    {good : α → Network → Prop} (h : Makes kind p net good) (answer : α → Answer) :
    Relation.ReflTransGen kind net (Outcome.ofBuild answer p net).network := by
  unfold Makes Ends at h
  unfold Outcome.ofBuild
  cases hr : p.run net with
  | ok a net' =>
    rw [hr] at h
    exact h.1
  | error fault net' =>
    rw [hr] at h
    exact h

theorem Makes.answered {α : Type} {kind : Network → Network → Prop} {p : Build α}
    {good : α → Network → Prop} {answer : α → Answer} {b : Answer} (h : Makes kind p net good)
    (hok : (Outcome.ofBuild answer p net).result = .ok b) : ∃ a, answer a = b ∧
      Relation.ReflTransGen kind net (Outcome.ofBuild answer p net).network ∧
      good a (Outcome.ofBuild answer p net).network := by
  unfold Outcome.ofBuild at hok ⊢
  cases hr : p.run net with
  | ok a net' =>
    rw [hr] at hok
    exact ⟨a, Except.ok.inj hok, h.of_run hr⟩
  | error fault net' =>
    rw [hr] at hok
    cases hok

theorem edits_ofPropagation {α : Type} {p : Propagation α} (h : Drives p ⟨net, []⟩)
    (answer : α → Answer) : Edits net (Outcome.ofPropagation answer p net).network := by
  rcases Outcome.of_ends h answer with ⟨a, run', hp, he⟩ | ⟨fault, run', hp, he⟩
  · rw [hp]
    exact he
  · rw [hp]
    exact he

theorem perform_edits (hi : net.Integrity) (hw : net.WellHeld) (c : Call) :
    Edits net (net.perform c).network := by
  cases c with
  | declare name => exact made_ofBuild (adds_declare hi name).edits _
  | equals result value => exact made_ofBuild (adds_equals hi result value).edits _
  | arithmetic op result left right =>
    exact made_ofBuild (adds_arithmetic hi op result left right).edits _
  | register name function arity => exact made_ofBuild (makes_register name function arity) _
  | call name output params => exact made_ofBuild (adds_call hi name output params).edits _
  | assign name value => exact made_ofBuild (makes_assign name value (by simp)) _
  | assignEnvironment name value => exact made_ofBuild (makes_assign name value (by simp)) _
  | write name value d => exact edits_ofPropagation (drives_write hw name value d) _
  | watch name w => exact edits_watch name w
  | set name setting => exact made_ofBuild (makes_redefine hi name setting) _
  | evaluate e => exact made_ofBuild (adds_evaluate hi e).edits _
  | evaluateText text => exact made_ofBuild (adds_evaluateText hi text).edits _
  | solve d => exact edits_ofPropagation (drives_solve hw d) _
  | next => exact edits_ofPropagation (drives_solve hw _) _
  | destroy name => exact (shrinks_destroy hi name).edits
  | destroyVariable v => exact (shrinks_destroyVariable hi v).edits
  | clear name => exact edits_clear hi name
  | reset => exact .single (.reset net)

/-- A network made with accepted settings, after any calls. -/
def Reachable (net : Network) : Prop :=
  ∃ config fresh calls, create config = .ok fresh ∧ net = fresh.after calls

theorem create_standard : create .standard = .ok (empty .standard) := rfl

theorem edits_after (hi : net.Integrity) (hw : net.WellHeld) (calls : List Call) :
    Edits net (net.after calls) := by
  induction calls generalizing net with
  | nil => exact .refl
  | cons c calls ih =>
    have he := perform_edits hi hw c
    exact Relation.ReflTransGen.trans he (ih (Edits.integrity he hi) (Edits.wellHeld he hw))

theorem Reachable.edits (h : Reachable net) :
    ∃ config : Config, config.flaw? = none ∧ Edits (empty config) net := by
  obtain ⟨config, fresh, calls, hc, rfl⟩ := h
  unfold create at hc
  cases hf : config.flaw? with
  | some flaw => simp [hf] at hc
  | none =>
    simp only [hf, Except.ok.injEq] at hc
    subst hc
    exact ⟨config, hf, edits_after (integrity_empty config) (wellHeld_empty config) calls⟩

theorem Reachable.integrity (h : Reachable net) : net.Integrity := by
  obtain ⟨config, -, he⟩ := h.edits
  exact Edits.integrity he (integrity_empty config)

theorem Reachable.wellHeld (h : Reachable net) : net.WellHeld := by
  obtain ⟨config, -, he⟩ := h.edits
  exact Edits.wellHeld he (wellHeld_empty config)

theorem Reachable.flawless (h : Reachable net) : net.config.flaw? = none := by
  obtain ⟨config, hf, he⟩ := h.edits
  rw [Edits.config he]
  exact hf

theorem Reachable.after (h : Reachable net) (calls : List Call) : Reachable (net.after calls) := by
  obtain ⟨config, fresh, before, hc, rfl⟩ := h
  exact ⟨config, fresh, before ++ calls, hc, (after_append fresh before calls).symm⟩

theorem Reachable.perform (h : Reachable net) (c : Call) : Reachable (net.perform c).network :=
  h.after [c]

end Network

end ConstraintNet
