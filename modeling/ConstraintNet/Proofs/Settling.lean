import Mathlib.Logic.Relation
import ConstraintNet.Proofs.Derive
import ConstraintNet.Proofs.Reachable

/-!
# Settling a digest

A marked relationship is passed over by every cascade, so what a marker promises has
to be known: that all operands have values. A relationship that is not marked has
nothing to say. Where passes repeat, the last one finds every relationship that is
marked in agreement with what is held.
-/

set_option autoImplicit false

namespace ConstraintNet

namespace Network

variable {d : Digest} {net mid net' : Network} {r : RelationshipId} {rel : Relationship}

/-- Markers promise known operands, but for some relationships. -/
def Grounded (net : Network) (d : Digest) (stale : RelationshipId → Prop) : Prop :=
  ∀ r, net.IsMarked d r → ¬ stale r → ∀ v, net.Touches r v → (net.valueAt d v).isSome

/-- A relationship is marked although an operand is unknown. -/
def Stale (net : Network) (d : Digest) (r : RelationshipId) : Prop :=
  net.IsMarked d r ∧ ∃ v, net.Touches r v ∧ net.valueAt d v = none

theorem grounded_stale (net : Network) (d : Digest) : net.Grounded d (net.Stale d) := by
  intro r hm hs v ht
  by_contra hn
  exact hs ⟨hm, v, ht, by simpa using hn⟩

theorem stale_iff (hr : net.relationshipAt r = some rel) (hm : net.IsMarked d r) :
    net.Stale d r ↔ ¬ ∀ v ∈ rel.relation.operands, (net.valueAt d v).isSome := by
  constructor
  · rintro ⟨-, v, ht, hunknown⟩ hk
    have hknown := hk v ((touches_iff_mem hr).mp ht)
    rw [hunknown] at hknown
    cases hknown
  · intro hn
    have hmissing : ∃ v ∈ rel.relation.operands, net.valueAt d v = none := by
      simpa using hn
    obtain ⟨v, hv, hunknown⟩ := hmissing
    exact ⟨hm, v, (touches_iff_mem hr).mpr hv, hunknown⟩

theorem Grounded.advance {stale : RelationshipId → Prop} (hg : net.Grounded d stale)
    (h : Advance d net net') (hm : ∀ r, ¬ stale r → net'.IsMarked d r → net.IsMarked d r) :
    net'.Grounded d stale := by
  intro r hr hs v ht
  exact h.isSome_known (hg r (hm r hs hr) hs v ((h.sameGraph.touches_iff r v).mp ht))

theorem isMarked_mark (hr : net.relationshipAt r = some rel) (m : Option Digest)
    (s : RelationshipId) : (net.updateRelationship r (·.mark m)).IsMarked d s =
      if r = s then decide (m = some d) else net.IsMarked d s := by
  unfold IsMarked
  rw [relationshipAt_updateRelationship]
  split
  · rename_i hrs
    subst hrs
    simp [hr, Relationship.mark, Relationship.isMarked]
  · rfl

end Network

open Network

variable {d : Digest} {run run' : Run} {r : RelationshipId} {rel : Relationship}

theorem Cascade.written {v : VariableId} {value : Float}
    (h : Cascade d (.write v value) run none run') :
    ∃ held, run'.network.valueAt d v = some held ∧
      (held = value ∧ run.network.valueAt d v = none ∨
        run.network.valueAt d v = some held ∧
          (held - value).abs ≤ run.network.config.tolerance) := by
  cases h with
  | agrees hx hh hc =>
    have hv : run.network.valueAt d v = some _ := (valueAt_eq hx).trans hh
    exact ⟨_, hv, .inr ⟨hv, hc⟩⟩
  | @stores _ _ _ _ x _ hx hu h =>
    have hv : (run.store d v x value).network.valueAt d v = some value := by
      rw [Run.store, valueAt_store hx, if_pos rfl]
    exact ⟨value, h.advance.known hv, .inl ⟨rfl, (valueAt_eq hx).trans hu⟩⟩

theorem Network.Grounded.mark {net : Network} {stale : RelationshipId → Prop}
    (hg : net.Grounded d stale) (hr : net.relationshipAt r = some rel) :
    (net.updateRelationship r (·.mark (some d))).Grounded d fun s => stale s ∨ s = r := by
  have hg' : net.Grounded d fun s => stale s ∨ s = r := fun s hm hs =>
    hg s hm fun hst => hs (.inl hst)
  apply hg'.advance (advance_mark hr)
  intro s hs hm
  rw [isMarked_mark hr, if_neg fun he => hs (.inr he.symm)] at hm
  exact hm

theorem Cascade.grounded {task : Task} {outcome : Option Fault}
    (h : Cascade d task run outcome run') (stale : RelationshipId → Prop)
    (hg : run.network.Grounded d stale) : run'.network.Grounded d stale := by
  induction h generalizing stale with
  | unknown => exact hg
  | contradicts => exact hg
  | agrees => exact hg
  | stores hx hu _ ih => exact ih stale (hg.advance (advance_store hx hu _) fun _ _ hm => hm)
  | absent => exact hg
  | waits => exact hg
  | refuses => exact hg
  | @derives run run' r rel t value hr hd h ih =>
    have hadv := (advance_mark hr).trans h.advance
    have hend := ih _ (hg.mark hr)
    intro s hm hs v ht
    by_cases hsr : s = r
    · -- The target is known once it is written, and the others were known before.
      subst hsr
      have hv := (touches_iff_mem hr).mp ((hadv.sameGraph.touches_iff s v).mp ht)
      by_cases hvt : v = t
      · obtain ⟨held, hheld, -⟩ := h.written
        rw [hvt, hheld]
        rfl
      · exact hadv.isSome_known ((Relation.derive_target hd).2 v hv hvt)
    · exact hend s hm (fun hst => hst.elim hs hsr) v ht
  | @restores run run' r rel t value fault hr hd h ih =>
    have hadv := Advance.restore hr h.advance
    have hend := ih _ (hg.mark hr)
    obtain ⟨rel', hr', -⟩ := ((advance_mark hr).trans h.advance).relationship_some hr
    intro s hm hs v ht
    rw [Run.mark, isMarked_mark hr'] at hm
    by_cases hsr : r = s
    · -- The old marker is back, and what it promised still holds.
      subst hsr
      rw [if_pos rfl, decide_eq_true_iff] at hm
      have hold := hg r (isMarked_iff.mpr ⟨rel, hr, hm⟩) hs v
      exact hadv.isSome_known (hold ((hadv.sameGraph.touches_iff r v).mp ht))
    · rw [if_neg hsr] at hm
      exact hend s hm (fun hst => hst.elim hs fun he => hsr he.symm) v
        (((sameGraph_mark run'.network r rel.marker).touches_iff s v).mp ht)
  | done => exact hg
  | skips _ _ ih => exact ih stale hg
  | turns _ _ _ ih ih' => exact ih' stale (ih stale hg)
  | stops _ _ ih => exact ih stale hg

theorem Passed.grounded (h : Passed d run run') {stale : RelationshipId → Prop}
    (hg : run.network.Grounded d stale) : run'.network.Grounded d stale := by
  induction h with
  | refl => exact hg
  | tail _ hp ih => exact hp.grounded stale ih

def Network.Quiet (net : Network) (d : Digest) (r : RelationshipId) : Prop :=
  ∀ rel, net.relationshipAt r = some rel → rel.relation.derive (net.valueAt d) = .ok .pending

/-- A task is bound to look at a relationship. -/
def Task.Owes (r : RelationshipId) : Task → Prop
  | .write _ _ => False
  | .solve s => r = s
  | .each _ rs => r ∈ rs

theorem Network.Quiet.congr {net net' : Network} (hq : net.Quiet d r) (hs : SameGraph net net')
    (hv : ∀ v, net.Touches r v → net'.valueAt d v = net.valueAt d v) : net'.Quiet d r := by
  intro rel' hr'
  obtain ⟨rel, hr, he⟩ := hs.relationship_some hr'
  rw [he, ← hq rel hr]
  exact Relation.derive_congr fun v hmem => hv v ⟨rel, hr, hmem⟩

/-- A cascade that ends well leaves unmarked only what has nothing to derive: it comes
to every relationship of a variable that it writes. -/
theorem Cascade.quiet {task : Task} {outcome : Option Fault}
    (h : Cascade d task run outcome run') (ho : outcome = none) (hi : run.network.Integrity)
    (hr : ¬ run'.network.IsMarked d r) (hq : task.Owes r ∨ run.network.Quiet d r) :
    run'.network.Quiet d r := by
  induction h with
  | unknown => cases ho
  | contradicts => cases ho
  | agrees => exact hq.resolve_left id
  | @stores run run' v value x outcome hx hu _ ih =>
    have hadv := advance_store hx hu value
    apply ih ho (hadv.integrity hi) hr
    by_cases ht : run.network.Touches r v
    · exact .inl ((hi.attached v x hx r).mpr ht)
    · refine .inr ((hq.resolve_left id).congr hadv.sameGraph fun w hw => ?_)
      refine (valueAt_store hx value w).trans (if_neg ?_)
      rintro rfl
      exact ht hw
  | absent hs =>
    rcases hq with rfl | hq
    · intro rel hrel
      rw [hs] at hrel
      cases hrel
    · exact hq
  | waits hs hd =>
    rcases hq with rfl | hq
    · intro rel hrel
      rw [hs] at hrel
      cases hrel
      exact hd
    · exact hq
  | refuses => cases ho
  | @derives run run' s rel t value hs hd h ih =>
    have hadv := advance_mark (d := d) hs
    refine ih ho (hadv.integrity hi) hr (.inr ?_)
    rcases hq with rfl | hq
    · refine absurd (h.advance.isMarked ?_) hr
      rw [Run.mark, isMarked_mark hs, if_pos rfl]
      exact decide_eq_true rfl
    · exact hq.congr hadv.sameGraph fun _ _ => rfl
  | restores => cases ho
  | done => exact hq.resolve_left (List.not_mem_nil)
  | @skips run run' s rs outcome hm h ih =>
    refine ih ho hi hr (hq.imp_left fun hmem => ?_)
    rcases List.mem_cons.mp hmem with rfl | hmem
    · exact absurd (h.advance.isMarked hm) hr
    · exact hmem
  | @turns run mid run' guarded s rs outcome hg h h' ih ih' =>
    have hmid : ¬ mid.network.IsMarked d r := fun hm => hr (h'.advance.isMarked hm)
    apply ih' ho (h.advance.integrity hi) hr
    rcases hq with hmem | hq
    · rcases List.mem_cons.mp hmem with rfl | hmem
      · exact .inr (ih rfl hi hmid (.inl rfl))
      · exact .inl hmem
    · exact .inr (ih rfl hi hmid (.inr hq))
  | stops => cases ho

theorem Cascade.turn {guarded : Bool} {rs : List RelationshipId}
    (h : Cascade d (.each guarded rs) run none run') (hg : guarded = false) (hr : r ∈ rs) :
    ∃ before after, Advance d run.network before.network ∧
      Cascade d (.solve r) before none after ∧ Advance d after.network run'.network := by
  induction rs generalizing run with
  | nil => cases hr
  | cons s rs ih =>
    cases h with
    | skips => cases hg
    | turns _ h h' =>
      rcases List.mem_cons.mp hr with rfl | hr
      · exact ⟨run, _, .refl _ _, h, h'.advance⟩
      · obtain ⟨before, after, hb, hs, ha⟩ := ih h' hr
        exact ⟨before, after, h.advance.trans hb, hs, ha⟩

/-- What a relationship says of a digest is nothing, or what is held. -/
def Network.Consistent (net : Network) (d : Digest) (rel : Relationship) : Prop :=
  rel.relation.derive (net.valueAt d) = .ok .pending ∨
    ∃ t value held, rel.relation.derive (net.valueAt d) = .ok (.derived t value) ∧
      net.valueAt d t = some held ∧ (held - value).abs ≤ net.config.tolerance

theorem Network.Consistent.congr {net net' : Network} (hc : net.Consistent d rel)
    (hcfg : net'.config = net.config)
    (hv : ∀ v ∈ rel.relation.operands, net'.valueAt d v = net.valueAt d v) :
    net'.Consistent d rel := by
  have hd : rel.relation.derive (net'.valueAt d) = rel.relation.derive (net.valueAt d) :=
    Relation.derive_congr hv
  unfold Consistent
  rw [hd, hcfg]
  apply hc.imp_right
  rintro ⟨t, value, held, hderive, hheld, hle⟩
  refine ⟨t, value, held, hderive, ?_, hle⟩
  rw [hv t (Relation.derive_target hderive).1, hheld]

theorem Cascade.consistent (h : Cascade d (.solve r) run none run')
    (hr : run.network.relationshipAt r = some rel)
    (hk : ∀ v ∈ rel.relation.operands, (run.network.valueAt d v).isSome) :
    run.network.Consistent d rel := by
  cases h with
  | absent hn =>
    rw [hr] at hn
    cases hn
  | waits hr' hd =>
    rw [hr] at hr'
    cases hr'
    exact .inl hd
  | @derives _ _ _ _ t value hr' hd h =>
    rw [hr] at hr'
    cases hr'
    obtain ⟨held, -, ⟨-, hu⟩ | ⟨hh, hle⟩⟩ := h.written
    · have hknown := hk t (Relation.derive_target hd).1
      change run.network.valueAt d t = none at hu
      rw [hu] at hknown
      cases hknown
    · exact .inr ⟨t, value, held, hd, hh, hle⟩

theorem Passes.quiet (h : Passes d run none run') (hi : run.network.Integrity)
    (hr : ¬ run'.network.IsMarked d r) : run'.network.Quiet d r := by
  by_cases hmem : r ∈ run.network.order
  · exact Cascade.quiet h rfl hi hr (.inl hmem)
  · -- It is not live, neither before the pass nor after it.
    intro rel hrel
    have hlive := (hi.mem_order r).not.mp hmem
    rw [← (Cascade.advance h).sameGraph.isSome_relationshipAt, hrel] at hlive
    exact absurd rfl hlive

structure Network.SettledAt (net : Network) (d : Digest) (rel : Relationship) : Prop where
  consistent : net.Consistent d rel
  known : rel.isMarked d → ∀ v ∈ rel.relation.operands, (net.valueAt d v).isSome
  waiting : ¬ rel.isMarked d → rel.relation.derive (net.valueAt d) = .ok .pending

/-- A pass that ends well and marks nothing new leaves settled what was not stale. -/
theorem Passes.settledAt {stale : RelationshipId → Prop} (h : Passes d run none run')
    (hi : run.network.Integrity) (hg : run.network.Grounded d stale)
    (hc : run'.network.solvedCount d = run.network.solvedCount d)
    (hr : run'.network.relationshipAt r = some rel) (hs : ¬ stale r) :
    run'.network.SettledAt d rel := by
  have hadv : Advance d run.network run'.network := Cascade.advance h
  have hmem : r ∈ run.network.order := by
    rw [hi.mem_order, ← hadv.sameGraph.isSome_relationshipAt, hr]
    rfl
  by_cases hm : run'.network.IsMarked d r
  · -- It was marked before the pass, so its operands were known before its turn.
    have hold := hadv.isMarked_of_count hc hmem hm
    have hknown (v : VariableId) (hv : v ∈ rel.relation.operands) :
        (run.network.valueAt d v).isSome :=
      hg r hold hs v ((hadv.sameGraph.touches_iff r v).mp ⟨rel, hr, hv⟩)
    obtain ⟨before, after, hb, hturn, ha⟩ := Cascade.turn h rfl hmem
    have hrest := hturn.advance.trans ha
    obtain ⟨rel', hr', he⟩ := hrest.sameGraph.relationship_some hr
    have hturned := hturn.consistent hr' fun v hv => hb.isSome_known (hknown v (he ▸ hv))
    have hconsistent : before.network.Consistent d rel := by
      unfold Consistent at *
      rwa [he]
    refine ⟨hconsistent.congr hrest.config fun v hv => ?_, fun _ v hv => ?_, fun hn => ?_⟩
    · obtain ⟨value, hvalue⟩ := Option.isSome_iff_exists.mp (hb.isSome_known (hknown v hv))
      rw [hvalue, hrest.known hvalue]
    · exact hadv.isSome_known (hknown v hv)
    · exact absurd (isMarked_eq hr ▸ hm) hn
  · have hq := h.quiet hi hm rel hr
    exact ⟨.inl hq, fun hmarked => absurd ((isMarked_eq hr).trans hmarked) hm, fun _ => hq⟩

namespace Network

variable {net : Network}

theorem Integrity.solvedCount_live (hi : net.Integrity) (d : Digest) :
    net.solvedCount d = net.relationships.live.countP (·.isMarked d) := by
  rw [hi.live_relationships, List.countP_filterMap, solvedCount]
  congr 1
  funext r
  cases net.relationshipAt r <;> rfl

theorem Integrity.length_live (hi : net.Integrity) :
    net.relationships.live.length = net.order.length := by
  rw [hi.live_relationships, List.length_filterMap_eq_countP]
  exact List.countP_eq_length.mpr fun r hr => (hi.mem_order r).mp hr

theorem Integrity.pending_live (hi : net.Integrity) (d : Digest) :
    net.order.length - net.solvedCount d =
      net.relationships.live.countP fun rel => !rel.isMarked d := by
  have hsplit := List.length_eq_countP_add_countP (l := net.relationships.live) (·.isMarked d)
  rw [hi.length_live, ← hi.solvedCount_live] at hsplit
  have hneg : (fun rel : Relationship => decide ¬ rel.isMarked d) = fun rel => !rel.isMarked d := by
    funext rel
    cases rel.isMarked d <;> rfl
  rw [← hneg]
  omega

/-- What a solve that answers leaves in a network whose passes repeat: only what is
marked has anything to say, and everything is settled that was not stale before. -/
structure Settles (net : Network) (d : Digest) (report : Report) (after : Network) : Prop where
  advance : Advance d { net with lastDigest := max net.lastDigest d } after
  digest : report.digest = d
  solved : report.solved = after.solvedCount d
  pending : report.pending = after.order.length - after.solvedCount d
  quiet : ∀ r, ¬ after.IsMarked d r → after.Quiet d r
  settled : ∀ r rel, after.relationshipAt r = some rel → ¬ net.Stale d r → after.SettledAt d rel

theorem solve_settles (hi : net.Integrity) (hf : net.config.fixpoint) {d : Digest}
    {report : Report} (h : (net.perform (.solve d)).result = .ok (.report report)) :
    net.Settles d report (net.perform (.solve d)).network := by
  rcases net.perform_solve d with ⟨report', run', hp, hanswered⟩ | ⟨fault, run', hp, -⟩
  · rw [hp] at h ⊢
    cases h
    obtain ⟨mid, hpre, hlast, hcount⟩ := hanswered.passed
    have hs : SameGraph net (Propagation.start d ⟨net, []⟩).network :=
      SameGraph.of_counters net net.functions _
    have hgrounded : (Propagation.start d ⟨net, []⟩).network.Grounded d (net.Stale d) :=
      grounded_stale net d
    have hadv := Passed.advance hpre
    have hmid := hadv.integrity (hs.integrity hi)
    exact {
      advance := hadv.trans hlast.advance
      digest := hanswered.digest
      solved := hanswered.solved
      pending := hanswered.pending
      quiet := fun r hm => Passes.quiet hlast hmid hm
      settled := fun r rel hr hstale =>
        Passes.settledAt hlast hmid (Passed.grounded hpre hgrounded) (hcount hf) hr hstale }
  · rw [hp] at h
    cases h

end Network

end ConstraintNet
