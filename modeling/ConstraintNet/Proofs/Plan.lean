import ConstraintNet.Proofs.SinglePass
import ConstraintNet.Proofs.Tolerance

/-!
# Plans for a digest

A plan gives every relationship a variable of its own to aim at and every variable the value
it is to get. Where a relationship that aims backwards has its turn before there is anything
to start from, and the one that starts them comes last, a pass finds what was planned: no
relationship speaks before all operands but its aim are known, and one that has spoken
backwards is marked and not heard again.
-/

set_option autoImplicit false

namespace ConstraintNet

namespace Network

variable {base net net' : Network} {d : Digest} {r s : RelationshipId} {relation : Relation}
  {aim : RelationshipId → VariableId} {wanted : VariableId → Option Float} {gate : RelationshipId}

def RelatesAt (net : Network) (r : RelationshipId) (relation : Relation) : Prop :=
  ∃ rel, net.relationshipAt r = some rel ∧ rel.relation = relation

theorem RelatesAt.touches_iff (h : net.RelatesAt r relation) (v : VariableId) :
    net.Touches r v ↔ v ∈ relation.operands := by
  obtain ⟨rel, hr, rfl⟩ := h
  exact touches_iff_mem hr

theorem RelatesAt.unique {relation' : Relation} (h : net.RelatesAt r relation)
    (h' : net.RelatesAt r relation') : relation = relation' := by
  obtain ⟨rel, hrel, rfl⟩ := h
  obtain ⟨rel', hrel', rfl⟩ := h'
  rw [hrel] at hrel'
  cases hrel'
  rfl

theorem SameGraph.relatesAt_iff (h : SameGraph net net') :
    net'.RelatesAt r relation ↔ net.RelatesAt r relation := by
  constructor
  · rintro ⟨rel', hr', rfl⟩
    obtain ⟨rel, hr, he⟩ := h.relationship_some hr'
    exact ⟨rel, hr, he.symm⟩
  · rintro ⟨rel, hr, rfl⟩
    obtain ⟨rel', hr', he⟩ := h.symm.relationship_some hr
    exact ⟨rel', hr', he.symm⟩

/-- A relationship that aims at something else than its result. -/
def Backward (base : Network) (aim : RelationshipId → VariableId) (r : RelationshipId) : Prop :=
  ∃ relation, base.RelatesAt r relation ∧ aim r ≠ relation.result

/-- Every relationship aims at an operand that no other one aims at, and derives what is
wanted there from what is wanted of its other operands. One that aims backwards waits for
another one that does, save for the gate, which aims at nothing that the others provide. -/
structure Plan (base : Network) (aim : RelationshipId → VariableId)
    (wanted : VariableId → Option Float) (gate : RelationshipId) : Prop where
  aims : ∀ r relation, base.RelatesAt r relation → aim r ∈ relation.operands
  proper : ∀ r relation, base.RelatesAt r relation → relation.result ∉ relation.arguments
  unique : ∀ r s relation relation', base.RelatesAt r relation → base.RelatesAt s relation' →
    aim r = aim s → r = s
  derives : ∀ r relation, base.RelatesAt r relation → ∃ value, wanted (aim r) = some value ∧
    relation.derive (fun v => if v = aim r then none else wanted v) =
      .ok (.derived (aim r) value)
  finite : ∀ v value, wanted v = some value → value.isFinite = true
  upstream : ∀ r, base.Backward aim r → r ≠ gate → ∃ relation s, base.RelatesAt r relation ∧
    base.Backward aim s ∧ aim s = relation.result
  sources : ∀ v, base.Touches gate v → v ≠ aim gate → ∀ r relation, base.RelatesAt r relation →
    aim r ≠ v

/-- In a run over `base` every known value is what is wanted; what is aimed at is not known
before everything else that its relationship touches, and where the aim is backwards not
before the relationship is marked. -/
structure Pursues (base : Network) (aim : RelationshipId → VariableId)
    (wanted : VariableId → Option Float) (d : Digest) (net : Network) : Prop where
  graph : SameGraph base net
  config : net.config = base.config
  wanted : ∀ v value, net.valueAt d v = some value → wanted v = some value
  fed : ∀ r relation, base.RelatesAt r relation → (net.valueAt d (aim r)).isSome →
    ∀ v ∈ relation.operands, v ≠ aim r → (net.valueAt d v).isSome
  marked : ∀ r, base.Backward aim r → (net.valueAt d (aim r)).isSome → net.IsMarked d r

/-- Nothing that is aimed at backwards is known. -/
def Barred (base : Network) (aim : RelationshipId → VariableId) (d : Digest) (net : Network) :
    Prop :=
  ∀ r, base.Backward aim r → net.valueAt d (aim r) = none

/-- Whatever a relationship has to say, it is what was planned; unless it aims backwards and
its aim is known already. -/
theorem Pursues.derive_eq (h : base.Pursues aim wanted d net) (hp : base.Plan aim wanted gate)
    (hr : base.RelatesAt r relation) (hb : base.Backward aim r → net.valueAt d (aim r) = none)
    (hd : relation.derive (net.valueAt d) ≠ .ok .pending) :
    (∀ v ∈ relation.operands, v ≠ aim r → (net.valueAt d v).isSome) ∧
      ∃ value, wanted (aim r) = some value ∧
        relation.derive (net.valueAt d) = .ok (.derived (aim r) value) := by
  have hothers : ∀ v ∈ relation.operands, v ≠ aim r → (net.valueAt d v).isSome := by
    obtain ⟨t, -, hknown⟩ := Relation.derive_others hd
    by_cases ht : aim r = t
    · rw [ht]
      exact hknown
    · exact h.fed r relation hr (hknown (aim r) (hp.aims r relation hr) ht)
  obtain ⟨value, hvalue, hderive⟩ := hp.derives r relation hr
  refine ⟨hothers, value, hvalue, ?_⟩
  rw [← hderive]
  have hagree (v : VariableId) (hv : v ∈ relation.operands) (hne : v ≠ aim r) :
      net.valueAt d v = if v = aim r then none else wanted v := by
    obtain ⟨u, hu⟩ := Option.isSome_iff_exists.mp (hothers v hv hne)
    rw [if_neg hne, hu, h.wanted v u hu]
  by_cases hfront : aim r = relation.result
  · -- Forwards, what is known of the aim does not matter.
    have hne (v : VariableId) (hv : v ∈ relation.arguments) : v ≠ aim r := by
      rintro rfl
      exact hp.proper r relation hr (hfront ▸ hv)
    apply Relation.derive_forward_congr
    · exact fun v hv => hothers v (List.mem_cons_of_mem _ hv) (hne v hv)
    · exact fun v hv => hagree v (List.mem_cons_of_mem _ hv) (hne v hv)
  · apply Relation.derive_congr
    intro v hv
    by_cases hne : v = aim r
    · rw [if_pos hne, hne]
      exact hb ⟨relation, hr, hfront⟩
    · exact hagree v hv hne

theorem Pursues.congr (h : base.Pursues aim wanted d net) (hs : SameGraph net net')
    (hc : net'.config = net.config) (hv : net'.valueAt d = net.valueAt d)
    (hm : ∀ r, net.IsMarked d r → net'.IsMarked d r) : base.Pursues aim wanted d net' where
  graph := h.graph.trans hs
  config := hc.trans h.config
  wanted := hv ▸ h.wanted
  fed := hv ▸ h.fed
  marked r hb hk := hm r (h.marked r hb (hv ▸ hk))

end Network

open Network

variable {base : Network} {d : Digest} {aim : RelationshipId → VariableId}
  {wanted : VariableId → Option Float} {gate : RelationshipId} {run run' : Run}

def Task.Planned (base : Network) (aim : RelationshipId → VariableId)
    (wanted : VariableId → Option Float) (d : Digest) (net : Network) : Task → Prop
  | .write v value => wanted v = some value ∧ ∃ r relation, base.RelatesAt r relation ∧
      aim r = v ∧ (∀ w ∈ relation.operands, w ≠ v → (net.valueAt d w).isSome) ∧
        (base.Backward aim r → net.IsMarked d r)
  | .solve r => base.Backward aim r → net.valueAt d (aim r) = none
  | .each guarded _ => guarded = true

theorem Network.Pursues.store (h : base.Pursues aim wanted d run.network)
    (hp : base.Plan aim wanted gate) {v : VariableId} {x : Variable} {value : Float}
    (hx : run.network.variableAt v = some x) (hu : x.holding.valueAt d = none)
    (ht : (Task.write v value).Planned base aim wanted d run.network) :
    base.Pursues aim wanted d (run.store d v x value).network := by
  obtain ⟨hwanted, r, relation, hr, rfl, hothers, hmarked⟩ := ht
  have hadv := advance_store hx hu value
  have hvalue := valueAt_store (d := d) hx value
  -- Only the variable written is known in addition, and no other relationship aims at it.
  have hold {s : RelationshipId} (hne : aim s ≠ aim r)
      (hk : ((run.store d (aim r) x value).network.valueAt d (aim s)).isSome) :
      (run.network.valueAt d (aim s)).isSome := by
    rwa [← (hvalue (aim s)).trans (if_neg (Ne.symm hne))]
  refine ⟨h.graph.trans hadv.sameGraph, hadv.config.trans h.config, fun w u hw => ?_,
    fun s relation' hs hk w hw hne => ?_, fun s hb hk => ?_⟩
  · rw [Run.store, hvalue w] at hw
    split at hw
    · rename_i he
      rw [← he, hwanted, hw]
    · exact h.wanted w u hw
  · apply hadv.isSome_known
    by_cases he : aim s = aim r
    · have hsame := hp.unique s r relation' relation hs hr he
      subst hsame
      have hsame' := hs.unique hr
      subst hsame'
      exact hothers w hw hne
    · exact h.fed s relation' hs (hold he hk) w hw hne
  · by_cases he : aim s = aim r
    · obtain ⟨relation', hs, hback⟩ := hb
      have hsame := hp.unique s r relation' relation hs hr he
      subst hsame
      exact hmarked ⟨relation', hs, hback⟩
    · exact h.marked s hb (hold he hk)

theorem Network.Pursues.mark {rel : Relationship} {r : RelationshipId}
    (h : base.Pursues aim wanted d run.network) (hr : run.network.relationshipAt r = some rel) :
    base.Pursues aim wanted d (run.mark r (some d)).network :=
  h.congr (sameGraph_mark _ _ _) rfl rfl fun _ hm => (advance_mark hr).isMarked hm

theorem Network.Pursues.planned_solve (h : base.Pursues aim wanted d run.network)
    {r : RelationshipId} (hm : ¬ run.network.IsMarked d r) :
    (Task.solve r).Planned base aim wanted d run.network := by
  intro hb
  by_contra hk
  exact hm (h.marked r hb (Option.isSome_iff_ne_none.mpr hk))

theorem Network.Pursues.planned_write (h : base.Pursues aim wanted d run.network)
    (hp : base.Plan aim wanted gate) {r : RelationshipId} {rel : Relationship} {t : VariableId}
    {value : Float} (ht : (Task.solve r).Planned base aim wanted d run.network)
    (hr : run.network.relationshipAt r = some rel)
    (hd : rel.relation.derive (run.network.valueAt d) = .ok (.derived t value)) :
    t = aim r ∧ (∀ v ∈ rel.relation.operands, v ≠ aim r → (run.network.valueAt d v).isSome) ∧
      (Task.write t value).Planned base aim wanted d (run.mark r (some d)).network := by
  have hat : base.RelatesAt r rel.relation := h.graph.relatesAt_iff.mp ⟨rel, hr, rfl⟩
  obtain ⟨hothers, value', hwanted, hderive⟩ := h.derive_eq hp hat ht (by rw [hd]; simp)
  rw [hd] at hderive
  cases hderive
  refine ⟨rfl, hothers, hwanted, r, rel.relation, hat, rfl, hothers, fun _ => ?_⟩
  rw [Run.mark, isMarked_mark hr, if_pos rfl]
  exact decide_eq_true rfl

theorem Cascade.pursues {task : Task} {outcome : Option Fault}
    (h : Cascade d task run outcome run') (hp : base.Plan aim wanted gate)
    (hi : base.Integrity) (hc : base.config.flaw? = none)
    (hf : base.Pursues aim wanted d run.network)
    (ht : task.Planned base aim wanted d run.network) :
    base.Pursues aim wanted d run'.network ∧ outcome = none := by
  induction h with
  | unknown hx =>
    obtain ⟨-, r, relation, hr, rfl, -⟩ := ht
    have hlive := hi.operand_live r (aim r) ((hr.touches_iff _).mpr (hp.aims r relation hr))
    rw [← hf.graph.isSome_variableAt, hx] at hlive
    cases hlive
  | contradicts hx hh hdiff =>
    have hwanted := hf.wanted _ _ ((valueAt_eq hx).trans hh)
    rw [ht.1] at hwanted
    cases hwanted
    rw [hf.config] at hdiff
    exact absurd (abs_sub_self_le hc (hp.finite _ _ ht.1)) hdiff
  | agrees => exact ⟨hf, rfl⟩
  | stores hx hu _ ih => exact ih (hf.store hp hx hu ht) rfl
  | absent => exact ⟨hf, rfl⟩
  | waits => exact ⟨hf, rfl⟩
  | refuses hr hd =>
    have hat := hf.graph.relatesAt_iff.mp ⟨_, hr, rfl⟩
    obtain ⟨-, value, -, hderive⟩ := hf.derive_eq hp hat ht (by rw [hd]; simp)
    rw [hd] at hderive
    cases hderive
  | derives hr hd _ ih => exact ih (hf.mark hr) (hf.planned_write hp ht hr hd).2.2
  | restores hr hd _ ih => cases (ih (hf.mark hr) (hf.planned_write hp ht hr hd).2.2).2
  | done => exact ⟨hf, rfl⟩
  | skips _ _ ih => exact ih hf rfl
  | turns hg _ _ ih ih' => exact ih' (ih hf (hf.planned_solve (hg ht))).1 ht
  | stops hg _ ih => cases (ih hf (hf.planned_solve (hg ht))).2

def Task.Avoids (base : Network) (aim : RelationshipId → VariableId) (gate : RelationshipId) :
    Task → Prop
  | .write v _ => (∀ s, base.Backward aim s → aim s ≠ v) ∧ ¬ base.Touches gate v
  | .solve r => r ≠ gate
  | .each _ rs => gate ∉ rs

theorem Network.Barred.avoids_write (hb : base.Barred aim d run.network)
    (hp : base.Plan aim wanted gate) {r : RelationshipId} {relation : Relation}
    (hr : base.RelatesAt r relation) (hne : r ≠ gate)
    (hothers : ∀ v ∈ relation.operands, v ≠ aim r → (run.network.valueAt d v).isSome)
    (value : Float) : (Task.write (aim r) value).Avoids base aim gate := by
  constructor
  · rintro s ⟨relation', hs, hback⟩ he
    have hsame := hp.unique s r relation' relation hs hr he
    subst hsame
    obtain ⟨relation'', s', hs', hback', hup⟩ := hp.upstream s ⟨relation', hs, hback⟩ hne
    have hsame := hs.unique hr
    subst hsame
    have hsame' := hs'.unique hs
    subst hsame'
    -- Its result is known, and aimed at backwards by the relationship upstream.
    have hknown := hothers _ (Relation.result_mem_operands _) (Ne.symm hback)
    rw [← hup, hb s' hback'] at hknown
    cases hknown
  · intro ht
    by_cases he : aim r = aim gate
    · obtain ⟨rel, hrel, -⟩ := ht
      exact hne (hp.unique r gate relation rel.relation hr ⟨rel, hrel, rfl⟩ he)
    · exact hp.sources (aim r) ht he r relation hr rfl

theorem Cascade.barred {task : Task} {outcome : Option Fault}
    (h : Cascade d task run outcome run') (hp : base.Plan aim wanted gate)
    (hi : base.Integrity) (hc : base.config.flaw? = none)
    (hf : base.Pursues aim wanted d run.network)
    (ht : task.Planned base aim wanted d run.network) (ha : task.Avoids base aim gate)
    (hb : base.Barred aim d run.network) : base.Barred aim d run'.network := by
  induction h with
  | unknown | contradicts | agrees => exact hb
  | @stores run run' v value x outcome hx hu _ ih =>
    have hvalue := valueAt_store (d := d) hx value
    refine ih (hf.store hp hx hu ht) rfl ?_ fun s hs => ?_
    · intro hmem
      have htouch := (hf.graph.integrity hi).attached v x hx gate |>.mp hmem
      exact ha.2 ((hf.graph.touches_iff gate v).mp htouch)
    · exact (hvalue (aim s)).trans ((if_neg (ha.1 s hs).symm).trans (hb s hs))
  | absent | waits | refuses | done => exact hb
  | @derives run run' r rel t value hr hd _ ih =>
    obtain ⟨rfl, hothers, hwrite⟩ := hf.planned_write hp ht hr hd
    have hat := hf.graph.relatesAt_iff.mp ⟨rel, hr, rfl⟩
    exact ih (hf.mark hr) hwrite (hb.avoids_write hp hat ha hothers value) hb
  | @restores run run' r rel t value fault hr hd _ ih =>
    obtain ⟨rfl, hothers, hwrite⟩ := hf.planned_write hp ht hr hd
    have hat := hf.graph.relatesAt_iff.mp ⟨rel, hr, rfl⟩
    exact ih (hf.mark hr) hwrite (hb.avoids_write hp hat ha hothers value) hb
  | skips _ _ ih => exact ih hf rfl (fun hmem => ha (List.mem_cons_of_mem _ hmem)) hb
  | @turns run mid run' guarded r rs outcome hg h _ ih ih' =>
    have hsolve := hf.planned_solve (hg ht)
    have hmid := ih hf hsolve (fun he => ha (he ▸ List.mem_cons_self)) hb
    exact ih' (h.pursues hp hi hc hf hsolve).1 ht
      (fun hmem => ha (List.mem_cons_of_mem _ hmem)) hmid
  | stops hg _ ih =>
    exact ih hf (hf.planned_solve (hg ht)) (fun he => ha (he ▸ List.mem_cons_self)) hb

theorem Cascade.turns_barred {rs : List RelationshipId} {outcome : Option Fault}
    (h : Cascade d (.each false rs) run outcome run') (hp : base.Plan aim wanted gate)
    (hi : base.Integrity) (hc : base.config.flaw? = none)
    (hf : base.Pursues aim wanted d run.network) (hgate : gate ∉ rs)
    (hb : base.Barred aim d run.network) :
    base.Pursues aim wanted d run'.network ∧ base.Barred aim d run'.network ∧ outcome = none := by
  induction rs generalizing run with
  | nil =>
    cases h
    exact ⟨hf, hb, rfl⟩
  | cons r rs ih =>
    have hne : r ≠ gate := fun he => hgate (he ▸ List.mem_cons_self)
    have hsolve : (Task.solve r).Planned base aim wanted d run.network := fun hback => hb r hback
    cases h with
    | turns _ h h' =>
      have hmid := (h.pursues hp hi hc hf hsolve).1
      exact ih h' hmid (fun hmem => hgate (List.mem_cons_of_mem _ hmem))
        (h.barred hp hi hc hf hsolve hne hb)
    | stops _ h => cases (h.pursues hp hi hc hf hsolve).2

theorem Cascade.each_append {rs ss : List RelationshipId} {guarded : Bool}
    {outcome : Option Fault} (h : Cascade d (.each guarded (rs ++ ss)) run outcome run') :
    (∃ mid, Cascade d (.each guarded rs) run none mid ∧
      Cascade d (.each guarded ss) mid outcome run') ∨
    ∃ fault, outcome = some fault ∧ Cascade d (.each guarded rs) run (some fault) run' := by
  induction rs generalizing run with
  | nil => exact .inl ⟨run, .done, h⟩
  | cons r rs ih =>
    cases h with
    | skips hm h =>
      rcases ih h with ⟨mid, hrs, hss⟩ | ⟨fault, ho, hrs⟩
      · exact .inl ⟨mid, .skips hm hrs, hss⟩
      · exact .inr ⟨fault, ho, .skips hm hrs⟩
    | turns hg hr h =>
      rcases ih h with ⟨mid, hrs, hss⟩ | ⟨fault, ho, hrs⟩
      · exact .inl ⟨mid, .turns hg hr hrs, hss⟩
      · exact .inr ⟨fault, ho, .turns hg hr hrs⟩
    | stops hg hr => exact .inr ⟨_, rfl, .stops hg hr⟩

theorem Network.Plan.pass {pre : List RelationshipId} {outcome : Option Fault}
    (hp : base.Plan aim wanted gate) (hi : base.Integrity) (hc : base.config.flaw? = none)
    (horder : base.order = pre ++ [gate]) (hf : base.Pursues aim wanted d run.network)
    (hb : base.Barred aim d run.network) (h : Passes d run outcome run') :
    base.Pursues aim wanted d run'.network ∧ outcome = none := by
  have hgate : gate ∉ pre := by
    intro hmem
    have hsorted := hi.order_sorted
    rw [horder, List.pairwise_append] at hsorted
    exact absurd (hsorted.2.2 gate hmem gate (List.mem_singleton_self _)) (Nat.lt_irrefl _)
  unfold Passes at h
  rw [hf.graph.order, horder] at h
  rcases h.each_append with ⟨mid, hpre, hlast⟩ | ⟨fault, -, hpre⟩
  · obtain ⟨hmid, hbarred, -⟩ := hpre.turns_barred hp hi hc hf hgate hb
    have hsolve : (Task.solve gate).Planned base aim wanted d mid.network :=
      fun hback => hbarred gate hback
    cases hlast with
    | turns _ hturn hdone =>
      cases hdone
      exact hturn.pursues hp hi hc hmid hsolve
    | stops _ hturn => exact hturn.pursues hp hi hc hmid hsolve
  · cases (hpre.turns_barred hp hi hc hf hgate hb).2.2

namespace Network

variable {net : Network}

theorem Plan.start (hd : ∀ r relation, net.RelatesAt r relation → net.valueAt d (aim r) = none)
    (hknown : ∀ v value, net.valueAt d v = some value → wanted v = some value) :
    net.Pursues aim wanted d (Propagation.start d ⟨net, []⟩).network ∧
      net.Barred aim d (Propagation.start d ⟨net, []⟩).network := by
  have hvalue : (Propagation.start d ⟨net, []⟩).network.valueAt d = net.valueAt d := rfl
  refine ⟨⟨SameGraph.of_counters net net.functions _, rfl, hknown, fun r relation hr hk => ?_,
    fun r hb hk => ?_⟩, fun r hb => ?_⟩
  · rw [hvalue, hd r relation hr] at hk
    cases hk
  · obtain ⟨relation, hr, -⟩ := hb
    rw [hvalue, hd r relation hr] at hk
    cases hk
  · obtain ⟨relation, hr, -⟩ := hb
    exact hd r relation hr

/-- Solving a digest in which nothing is known that is aimed at finds nothing but what is
wanted, and leaves nothing to derive. Only a second pass can fail. -/
theorem Plan.solve (hp : net.Plan aim wanted gate) (hr : Reachable net) (hlast : net.lastDigest < d)
    (hd : ∀ r relation, net.RelatesAt r relation → net.valueAt d (aim r) = none)
    (hknown : ∀ v value, net.valueAt d v = some value → wanted v = some value)
    {pre : List RelationshipId} (horder : net.order = pre ++ [gate]) :
    let outcome := net.perform (.solve d)
    net.Pursues aim wanted d outcome.network ∧ outcome.network.Inert d ∧
      ((∃ report, outcome.result = .ok (.report report)) ∨
        net.config.fixpoint ∧ ∃ fault, outcome.result = .error fault) := by
  intro outcome
  obtain ⟨hstart, hbarred⟩ := Plan.start hd hknown
  have hfresh := hr.wellHeld.fresh hlast
  have hpass := Propagation.follows_pass d (Propagation.start d ⟨net, []⟩)
  cases hrun : (Propagation.pass d).run (Propagation.start d ⟨net, []⟩) with
  | error fault mid =>
    unfold Follows Ends at hpass
    rw [hrun] at hpass
    cases (hp.pass hr.integrity hr.flawless horder hstart hbarred hpass).2
  | ok _ mid =>
    have hpassed := Propagation.passes_of_run hrun
    have hmid := (hp.pass hr.integrity hr.flawless horder hstart hbarred hpassed).1
    have hinert : mid.network.Inert d := hpassed.inert
      (SameGraph.integrity (SameGraph.of_counters net net.functions _) hr.integrity)
      ⟨hfresh.unsolved, hfresh.unmarked⟩
    rcases perform_solve_of_inert hrun hinert hfresh.solvedCount with h | ⟨hfix, fault, h⟩
    · have houtcome : outcome = _ := h
      rw [houtcome]
      exact ⟨hmid, hinert, .inl ⟨_, rfl⟩⟩
    · have houtcome : outcome = _ := h
      rw [houtcome]
      exact ⟨hmid, hinert, .inr ⟨hfix, fault, rfl⟩⟩

theorem Pursues.reaches {after : Network} (h : net.Pursues aim wanted d after)
    (hp : net.Plan aim wanted gate) (hi : after.Inert d) {r : RelationshipId}
    {relation : Relation} (hr : net.RelatesAt r relation)
    (hothers : ∀ v ∈ relation.operands, v ≠ aim r → (after.valueAt d v).isSome) :
    (after.valueAt d (aim r)).isSome := by
  by_contra hunknown
  obtain ⟨rel, hrel, rfl⟩ := h.graph.relatesAt_iff.mpr hr
  by_cases hm : rel.isMarked d
  · exact hunknown ((hi r rel hrel).1 hm (aim r) (hp.aims r rel.relation hr))
  · have hwait := (hi r rel hrel).2 hm
    obtain ⟨value, -, hderive⟩ := hp.derives r rel.relation hr
    -- It knows all that the plan asks for, so it has something to say.
    have hsame : rel.relation.derive (after.valueAt d) = .ok (.derived (aim r) value) := by
      rw [← hderive]
      apply Relation.derive_congr
      intro v hv
      by_cases hne : v = aim r
      · rw [if_pos hne, hne]
        simpa using hunknown
      · obtain ⟨u, hu⟩ := Option.isSome_iff_exists.mp (hothers v hv hne)
        rw [if_neg hne, hu, h.wanted v u hu]
    rw [hwait] at hsame
    cases hsame

end Network

end ConstraintNet
