import ConstraintNet.Proofs.History

/-!
# One pass is enough

In a fresh digest a pass that ends well leaves nothing to derive: what it marked knows all
its operands, and what it did not mark waits. The passes after it check once more that
what is marked agrees with what is held, and change nothing.
-/

set_option autoImplicit false

namespace ConstraintNet

open Network

def Config.withFixpoint (c : Config) (b : Bool) : Config := { c with fixpoint := b }

namespace Network

variable {d : Digest} {net one other : Network}

def withFixpoint (net : Network) (b : Bool) : Network :=
  { net with config := net.config.withFixpoint b }

theorem Advance.withFixpoint (h : Advance d net one) (b : Bool) :
    Advance d (net.withFixpoint b) (one.withFixpoint b) where
  rest := by
    conv_lhs => rw [h.rest]
    rfl
  vars_next := h.vars_next
  vars := h.vars
  relationships_next := h.relationships_next
  relationships := h.relationships

theorem Integrity.withFixpoint (hi : net.Integrity) (b : Bool) : (net.withFixpoint b).Integrity :=
  ⟨hi.order_sorted, hi.mem_order, hi.operand_live, hi.attached, hi.attached_sorted,
    hi.registered, hi.defined⟩

theorem Integrity.twin_withFixpoint (hi : net.Integrity) (d : Digest) (b : Bool) :
    net.Twin d d (fun r s => r = s ∧ (net.relationshipAt r).isSome) (net.withFixpoint b) where
  tolerance := rfl
  order := List.forall₂_same.mpr fun r hr => ⟨rfl, (hi.mem_order r).mp hr⟩
  vars v := by
    change Option.Rel _ (net.variableAt v) (net.variableAt v)
    cases hx : net.variableAt v with
    | none => exact .none
    | some x =>
      refine .some ⟨rfl, rfl, rfl, List.forall₂_same.mpr fun r hr => ⟨rfl, ?_⟩⟩
      obtain ⟨rel, hrel, -⟩ := (hi.attached v x hx r).mp hr
      rw [hrel]
      rfl
  rels r s := by
    rintro ⟨rfl, hlive⟩
    obtain ⟨rel, hrel⟩ := Option.isSome_iff_exists.mp hlive
    exact ⟨rel, rel, hrel, hrel, rfl, rfl⟩
  matched := by
    rintro r _ s _ ⟨rfl, -⟩ ⟨rfl, -⟩
    exact Iff.rfl

theorem settled_unique {x y z : Variable} (hy : Settled d x y) (hz : Settled d x z)
    (hv : z.holding.valueAt d = y.holding.valueAt d) : z = y := by
  rcases hy with rfl | ⟨hx, value, rfl⟩
  · rcases hz with rfl | ⟨hx, value, rfl⟩
    · rfl
    · rw [hx] at hv
      simp [Holding.valueAt] at hv
  · rcases hz with rfl | ⟨-, value', rfl⟩
    · rw [hx] at hv
      simp [Holding.valueAt] at hv
    · simp only [Holding.valueAt, if_true, Option.some.injEq] at hv
      rw [hv]

theorem marked_unique {rel s t : Relationship} (hs : Marked d rel s) (ht : Marked d rel t)
    (hm : t.isMarked d = s.isMarked d) : t = s := by
  have hself (h : rel.isMarked d) : rel.mark (some d) = rel :=
    mark_eq_self (isMarked_iff_marker.mp h)
  have hmarked : (rel.mark (some d)).isMarked d := isMarked_iff_marker.mpr rfl
  rcases hs with rfl | rfl
  · rcases ht with rfl | rfl
    · rfl
    · exact hself (hm ▸ hmarked)
  · rcases ht with rfl | rfl
    · exact (hself (hm ▸ hmarked)).symm
    · rfl

theorem Advance.unique (h : Advance d net one) (h' : Advance d net other)
    (hv : other.valueAt d = one.valueAt d) (hm : ∀ r, other.IsMarked d r = one.IsMarked d r) :
    other = one := by
  have hvars : other.vars = one.vars := by
    apply Arena.ext_get? (h'.vars_next.trans h.vars_next.symm)
    intro i
    change other.variableAt ⟨i⟩ = one.variableAt ⟨i⟩
    rcases rel_cases (h.vars ⟨i⟩) with ⟨hx, hone⟩ | ⟨x, y, hx, hone, hy⟩
    · rcases rel_cases (h'.vars ⟨i⟩) with ⟨-, hother⟩ | ⟨x', z, hx', -, -⟩
      · rw [hone, hother]
      · rw [hx] at hx'
        cases hx'
    · obtain ⟨z, hother, hz⟩ := h'.variable_some hx
      have hvalue := congrFun hv ⟨i⟩
      rw [valueAt_eq hone, valueAt_eq hother] at hvalue
      rw [hone, hother, settled_unique hy hz hvalue]
  have hrels : other.relationships = one.relationships := by
    apply Arena.ext_get? (h'.relationships_next.trans h.relationships_next.symm)
    intro i
    change other.relationshipAt ⟨i⟩ = one.relationshipAt ⟨i⟩
    rcases rel_cases (h.relationships ⟨i⟩) with ⟨hr, hone⟩ | ⟨rel, s, hr, hone, hs⟩
    · rw [hone, h'.relationship_none hr]
    · obtain ⟨t, hother, ht⟩ := h'.relationship_some hr
      have hmarked := hm ⟨i⟩
      rw [isMarked_eq hone, isMarked_eq hother] at hmarked
      rw [hone, hother, marked_unique hs ht hmarked]
  rw [h.rest, h'.rest, hvars, hrels]

end Network

namespace Propagation

variable {d : Digest} {run mid : Run}

theorem lockstep_pass_withFixpoint (hi : run.network.Integrity) (b : Bool) :
    Lockstep (pass d) run (pass d) { run with network := run.network.withFixpoint b }
      (fun _ _ => True) fun s t => t = { s with network := s.network.withFixpoint b } := by
  have hadvance (run : Run) : Ends (pass d) run
      (fun _ run' => Advance d run.network run'.network)
      fun _ run' => Advance d run.network run'.network :=
    Ends.mono (follows_pass d run) (fun _ _ h => h.advance) fun _ _ h => h.advance
  have htwin : run.Twin d d _ { run with network := run.network.withFixpoint b } :=
    ⟨hi.twin_withFixpoint d b, rfl⟩
  refine (lockstep_pass htwin).both (hadvance _) (hadvance _) fun s t hinv hone hother => ?_
  have hmarked (r : RelationshipId) : t.network.IsMarked d r = s.network.IsMarked d r := by
    by_cases hlive : (run.network.relationshipAt r).isSome
    · exact hinv.1.isMarked ⟨rfl, hlive⟩
    · have hgone : run.network.relationshipAt r = none := by simpa using hlive
      have hgone' := hother.relationship_none hgone
      rw [IsMarked, IsMarked, hone.relationship_none hgone, hgone']
  have hnetwork : t.network = s.network.withFixpoint b :=
    (hone.withFixpoint b).unique hother hinv.1.valueAt hmarked
  have hfired : t.fired = s.fired := hinv.2
  rw [← hnetwork, ← hfired]

theorem ends_passes_of_stopped {fault : Fault} (h : (pass d).run run = .error fault mid)
    (spare : Nat) : Ends (passes d spare) run (fun _ _ => False)
      fun fault' run' => fault' = fault ∧ run' = mid := by
  have hpass : Ends (pass d) run (fun _ _ => False)
      fun fault' run' => fault' = fault ∧ run' = mid := by
    unfold Ends
    rw [h]
    exact ⟨rfl, rfl⟩
  cases spare with
  | zero => exact Ends.bind (Ends.mono hpass (fun _ _ h => h.elim) fun _ _ h => h)
  | succ spare =>
    refine Ends.bind (ends_network (Ends.bind ?_))
    exact Ends.mono hpass (fun _ _ h => h.elim) fun _ _ h => h

/-- After a pass that leaves nothing to derive there is at most one more, which changes
nothing. -/
theorem ends_passes_of_inert (h : (pass d).run run = .ok () mid) (hs : mid.network.Inert d)
    (hz : run.network.solvedCount d = 0) (spare : Nat) :
    Ends (passes d spare) run
      (fun made run' => run' = mid ∧
        made = if spare = 0 ∨ mid.network.solvedCount d = 0 then 1 else 2)
      fun _ run' => run' = mid ∧ spare ≠ 0 := by
  have hpass : Ends (pass d) run (fun _ run' => run' = mid) fun _ _ => False := by
    unfold Ends
    rw [h]
  cases spare with
  | zero =>
    refine Ends.bind (Ends.mono hpass ?_ fun _ _ h => h.elim)
    rintro _ run' rfl
    exact ⟨rfl, rfl⟩
  | succ spare =>
    have hsettles : Ends (passSettles d) run
        (fun settles run' => run' = mid ∧ settles = decide (mid.network.solvedCount d = 0))
        fun _ _ => False := by
      refine ends_network (Ends.bind (Ends.mono hpass ?_ fun _ _ h => h))
      rintro _ run' rfl
      rw [hz]
      exact ⟨rfl, rfl⟩
    refine Ends.bind (Ends.mono hsettles ?_ fun _ _ h => h.elim)
    rintro settles run' ⟨rfl, rfl⟩
    by_cases hnone : run'.network.solvedCount d = 0
    · rw [decide_eq_true hnone]
      exact ⟨rfl, by rw [if_pos (.inr hnone)]⟩
    · rw [decide_eq_false hnone]
      refine Ends.bind (Ends.mono (ends_passes_inert hs spare) ?_ ?_)
      · rintro made run'' ⟨rfl, rfl⟩
        refine ⟨rfl, ?_⟩
        rw [if_neg (by simp [hnone])]
      · exact fun _ _ h => ⟨h.1, Nat.succ_ne_zero spare⟩

theorem passes_of_run (h : (pass d).run run = .ok () mid) : Passes d run none mid := by
  have hpass := follows_pass d run
  unfold Follows Ends at hpass
  rwa [h] at hpass

theorem ends_solve_of_passes {good : Report → Run → Prop} {bad : Fault → Run → Prop}
    (h : Ends (passes d (if run.network.config.fixpoint then run.network.order.length else 0))
      (start d run) (fun made run' => good ⟨d, made, run'.network.solvedCount d,
        run'.network.order.length - run'.network.solvedCount d⟩ run') bad) :
    Ends (solve d) run good bad :=
  ends_update (ends_network (Ends.bind h))

theorem ends_solve_of_inert (h : (pass d).run (start d run) = .ok () mid)
    (hs : mid.network.Inert d) (hz : run.network.solvedCount d = 0) :
    Ends (solve d) run
      (fun report run' => run' = mid ∧ report = ⟨d,
        if run.network.config.fixpoint ∧ mid.network.solvedCount d ≠ 0 then 2 else 1,
        mid.network.solvedCount d, mid.network.order.length - mid.network.solvedCount d⟩)
      fun _ run' => run' = mid ∧ run.network.config.fixpoint := by
  have horder : mid.network.order = run.network.order := (passes_of_run h).advance.order
  have hcount := mid.network.solvedCount_le_length d
  rw [horder] at hcount
  refine ends_solve_of_passes (Ends.mono (ends_passes_of_inert h hs hz _) ?_ ?_)
  · rintro made run' ⟨rfl, rfl⟩
    refine ⟨rfl, ?_⟩
    congr 1
    by_cases hf : run.network.config.fixpoint
    · by_cases hnone : run'.network.solvedCount d = 0
      · simp [hnone]
      · have hlength : run.network.order.length ≠ 0 := by omega
        simp [hf, hnone, hlength]
    · simp [hf]
  · rintro fault run' ⟨rfl, hspare⟩
    refine ⟨rfl, ?_⟩
    by_contra hf
    exact hspare (if_neg hf)

end Propagation

theorem Passes.inert {d : Digest} {run run' : Run} (h : Passes d run none run')
    (hi : run.network.Integrity) (hf : run.network.Fresh d) : run'.network.Inert d :=
  h.inert_of_grounded hi fun r hm => absurd hm (hf.not_isMarked r)

namespace Network

variable {net : Network} {d : Digest}

theorem Fresh.solvedCount (hf : net.Fresh d) : net.solvedCount d = 0 :=
  List.countP_eq_zero.mpr fun r _ => hf.not_isMarked r

theorem perform_solve_of_stopped {fault : Fault} {mid : Run}
    (h : (Propagation.pass d).run (Propagation.start d ⟨net, []⟩) = .error fault mid) :
    net.perform (.solve d) = ⟨.error fault, mid.network, mid.fired⟩ := by
  have hpasses := Propagation.ends_passes_of_stopped h
  have hsolve : Ends (Propagation.solve d) ⟨net, []⟩ (fun _ _ => False)
      fun fault' run' => fault' = fault ∧ run' = mid :=
    Propagation.ends_solve_of_passes (hpasses _)
  rcases Outcome.of_ends hsolve .report with ⟨_, _, _, h⟩ | ⟨_, _, hp, rfl, rfl⟩
  · exact h.elim
  · exact hp

/-- If the first pass of a solve leaves nothing to derive, the solve comes to the same and
reports two passes where there is a second one; only that one can still fail. -/
theorem perform_solve_of_inert {mid : Run}
    (h : (Propagation.pass d).run (Propagation.start d ⟨net, []⟩) = .ok () mid)
    (hs : mid.network.Inert d) (hz : net.solvedCount d = 0) :
    net.perform (.solve d) = ⟨.ok (.report ⟨d,
        if net.config.fixpoint ∧ mid.network.solvedCount d ≠ 0 then 2 else 1,
        mid.network.solvedCount d, mid.network.order.length - mid.network.solvedCount d⟩),
      mid.network, mid.fired⟩ ∨
    net.config.fixpoint ∧ ∃ fault,
      net.perform (.solve d) = ⟨.error fault, mid.network, mid.fired⟩ := by
  rcases Outcome.of_ends (Propagation.ends_solve_of_inert h hs hz) .report with
    ⟨_, _, hp, rfl, rfl⟩ | ⟨fault, _, hp, rfl, hf⟩
  · exact .inl hp
  · exact .inr ⟨hf, fault, hp⟩

theorem Fresh.first_pass (hf : net.Fresh d) (hi : net.Integrity) :
    (∃ mid,
      (Propagation.pass d).run (Propagation.start d ⟨net.withFixpoint false, []⟩) = .ok () mid ∧
      (Propagation.pass d).run (Propagation.start d ⟨net.withFixpoint true, []⟩) =
        .ok () { mid with network := mid.network.withFixpoint true } ∧
      mid.network.Inert d) ∨
    ∃ fault mid,
      (Propagation.pass d).run (Propagation.start d ⟨net.withFixpoint false, []⟩) =
        .error fault mid ∧
      (Propagation.pass d).run (Propagation.start d ⟨net.withFixpoint true, []⟩) =
        .error fault { mid with network := mid.network.withFixpoint true } := by
  have hstart : (Propagation.start d ⟨net.withFixpoint false, []⟩).network.Integrity :=
    (SameGraph.of_counters (net.withFixpoint false) net.functions _).integrity
      (hi.withFixpoint false)
  have hfresh : (Propagation.start d ⟨net.withFixpoint false, []⟩).network.Fresh d :=
    ⟨hf.unsolved, hf.unmarked⟩
  have hlock := Propagation.lockstep_pass_withFixpoint (d := d) hstart true
  rcases hlock.outcomes with
    ⟨_, _, mid, _, hpass, hpass', -, rfl⟩ | ⟨fault, mid, _, hpass, hpass', rfl⟩
  · exact .inl ⟨mid, hpass, hpass', (Propagation.passes_of_run hpass).inert hstart hfresh⟩
  · exact .inr ⟨fault, mid, hpass, hpass'⟩

/-- In a fresh digest it does not matter whether passes repeat: what is known and marked
afterwards is the same, and so is what is told, however the two end. Where a single pass
fails, repeated ones fail with the same fault. Where repeated passes answer, a single one
answers as well and reports the same but for the number of passes, of which there is one
where nothing was solved and two otherwise. -/
theorem one_pass_is_enough (hr : Reachable net) (hf : net.Fresh d) :
    let repeated := (net.withFixpoint true).perform (.solve d)
    let single := (net.withFixpoint false).perform (.solve d)
    repeated.network = single.network.withFixpoint true ∧
    repeated.fired = single.fired ∧
    (∀ fault, single.result = .error fault → repeated.result = .error fault) ∧
    ∀ report, repeated.result = .ok (.report report) →
      single.result = .ok (.report { report with passes := 1 }) ∧
      report.passes = if report.solved = 0 then 1 else 2 := by
  intro repeated single
  rcases hf.first_pass hr.integrity with ⟨mid, hpass, hpass', hinert⟩ | ⟨fault, mid, hpass, hpass'⟩
  · have hsingle : single = ⟨.ok (.report ⟨d, 1, mid.network.solvedCount d,
        mid.network.order.length - mid.network.solvedCount d⟩), mid.network, mid.fired⟩ := by
      rcases perform_solve_of_inert hpass hinert hf.solvedCount with h | ⟨hfix, -⟩
      · exact h
      · cases hfix
    rcases perform_solve_of_inert hpass' hinert hf.solvedCount with h | ⟨-, fault, h⟩
    · have hrepeated : repeated = _ := h
      rw [hsingle, hrepeated]
      refine ⟨rfl, rfl, fun fault h => ?_, fun report h => ?_⟩
      · cases h
      · cases h
        refine ⟨rfl, ?_⟩
        change (if true = true ∧ mid.network.solvedCount d ≠ 0 then 2 else 1) =
          if mid.network.solvedCount d = 0 then 1 else 2
        by_cases hnone : mid.network.solvedCount d = 0 <;> simp [hnone]
    · have hrepeated : repeated = _ := h
      rw [hsingle, hrepeated]
      refine ⟨rfl, rfl, fun fault h => ?_, fun report h => ?_⟩
      · cases h
      · cases h
  · have hsingle : single = _ := perform_solve_of_stopped hpass
    have hrepeated : repeated = _ := perform_solve_of_stopped hpass'
    rw [hsingle, hrepeated]
    refine ⟨rfl, rfl, fun fault h => h, fun report h => ?_⟩
    cases h

theorem one_pass_is_enough_pinnedPair :
    Reachable pinnedPair ∧ pinnedPair.Fresh 1 ∧
      ((pinnedPair.withFixpoint true).perform (.solve 1)).result = .ok (.report ⟨1, 2, 1, 0⟩) ∧
      ((pinnedPair.withFixpoint false).perform (.solve 1)).result = .ok (.report ⟨1, 1, 1, 0⟩) ∧
      ((pinnedPair.withFixpoint true).perform (.solve 1)).network =
        ((pinnedPair.withFixpoint false).perform (.solve 1)).network.withFixpoint true := by
  have hf : pinnedPair.Fresh 1 := reachable_pinnedPair.wellHeld.fresh (by decide +kernel)
  obtain ⟨hnetwork, -, -, hanswers⟩ := one_pass_is_enough reachable_pinnedPair hf
  have hrepeated : ((pinnedPair.withFixpoint true).perform (.solve 1)).result =
      .ok (.report ⟨1, 2, 1, 0⟩) := rfl
  exact ⟨reachable_pinnedPair, hf, hrepeated, (hanswers _ hrepeated).1, hnetwork⟩

end Network

end ConstraintNet
