import ConstraintNet.Proofs.Fixpoint
import ConstraintNet.Proofs.Termination

/-!
# A part of a network

Where no relationship joins the variables of a set to the others, solving goes on in two
parts that take turns and take no notice of each other. What it does in one of them it does
as well when the other one is not there.
-/

set_option autoImplicit false

namespace ConstraintNet

noncomputable def within {α : Type} (S : Set α) (xs : List α) : List α :=
  open Classical in xs.filter (· ∈ S)

section Within

variable {α : Type} {S : Set α} {x : α} {xs : List α}

theorem within_cons_of_mem (h : x ∈ S) : within S (x :: xs) = x :: within S xs := by
  simp [within, h]

theorem within_cons_of_notMem (h : x ∉ S) : within S (x :: xs) = within S xs := by
  simp [within, h]

theorem within_append (xs ys : List α) : within S (xs ++ ys) = within S xs ++ within S ys := by
  simp [within]

theorem within_eq_self (h : ∀ x ∈ xs, x ∈ S) : within S xs = xs := by
  simpa [within] using h

theorem within_eq_nil (h : ∀ x ∈ xs, x ∉ S) : within S xs = [] := by
  simpa [within] using h

theorem mem_within : x ∈ within S xs ↔ x ∈ xs ∧ x ∈ S := by
  simp [within]

end Within

variable {d : Digest} {X : Set VariableId} {R : Set RelationshipId}

namespace Network

variable {net mid net' part part' : Network}

/-- The relationships of a set have all their operands in a set of variables, and the other
relationships have none there. -/
def Split (X : Set VariableId) (R : Set RelationshipId) (net : Network) : Prop :=
  ∀ r v, net.Touches r v → (v ∈ X ↔ r ∈ R)

structure SameOn (X : Set VariableId) (R : Set RelationshipId) (net net' : Network) : Prop where
  config : net'.config = net.config
  vars : ∀ v ∈ X, net'.variableAt v = net.variableAt v
  rels : ∀ r ∈ R, net'.relationshipAt r = net.relationshipAt r

theorem Split.compl (hs : net.Split X R) : net.Split Xᶜ Rᶜ :=
  fun r v ht => not_congr (hs r v ht)

theorem Split.advance (hs : net.Split X R) (h : Advance d net net') : net'.Split X R :=
  fun r v ht => hs r v ((h.sameGraph.touches_iff r v).mp ht)

theorem Split.target (hs : net.Split X R) {r : RelationshipId} {rel : Relationship}
    {known : VariableId → Option Float} {t : VariableId} {value : Float}
    (hr : net.relationshipAt r = some rel)
    (hd : rel.relation.derive known = .ok (.derived t value)) (hin : r ∈ R) : t ∈ X :=
  (hs r t ⟨rel, hr, (Relation.derive_target hd).1⟩).mpr hin

theorem Split.attached (hs : net.Split X R) (hi : net.Integrity) {v : VariableId} {x : Variable}
    (hx : net.variableAt v = some x) (hin : v ∈ X) : ∀ r ∈ x.relationships, r ∈ R :=
  fun r hr => (hs r v ((hi.attached v x hx r).mp hr)).mp hin

namespace SameOn

theorem refl (X : Set VariableId) (R : Set RelationshipId) (net : Network) : SameOn X R net net :=
  ⟨rfl, fun _ _ => rfl, fun _ _ => rfl⟩

theorem symm (h : SameOn X R net net') : SameOn X R net' net :=
  ⟨h.config.symm, fun v hv => (h.vars v hv).symm, fun r hr => (h.rels r hr).symm⟩

theorem trans (h : SameOn X R net mid) (h' : SameOn X R mid net') : SameOn X R net net' where
  config := h'.config.trans h.config
  vars v hv := (h'.vars v hv).trans (h.vars v hv)
  rels r hr := (h'.rels r hr).trans (h.rels r hr)

theorem valueAt (h : SameOn X R net net') {v : VariableId} (hv : v ∈ X) :
    net'.valueAt d v = net.valueAt d v := by
  rw [Network.valueAt, h.vars v hv, Network.valueAt]

theorem firings (h : SameOn X R net net') {v : VariableId} (hv : v ∈ X) :
    net'.firings d v = net.firings d v := by
  rw [Network.firings, h.vars v hv, h.valueAt hv, Network.firings]

theorem isMarked (h : SameOn X R net net') {r : RelationshipId} (hr : r ∈ R) :
    net'.IsMarked d r = net.IsMarked d r := by
  rw [IsMarked, h.rels r hr, IsMarked]

theorem derive (h : SameOn X R net net') (hs : net.Split X R) {r : RelationshipId}
    {rel : Relationship} (hr : net.relationshipAt r = some rel) (hin : r ∈ R) :
    rel.relation.derive (net'.valueAt d) = rel.relation.derive (net.valueAt d) :=
  Relation.derive_congr fun v hv => h.valueAt ((hs r v ⟨rel, hr, hv⟩).mpr hin)

theorem updateVariable (h : SameOn X R net net') (v : VariableId) (f : Variable → Variable) :
    SameOn X R (net.updateVariable v f) (net'.updateVariable v f) where
  config := h.config
  vars w hw := by rw [variableAt_updateVariable, variableAt_updateVariable, h.vars w hw]
  rels := h.rels

theorem updateRelationship (h : SameOn X R net net') (r : RelationshipId)
    (f : Relationship → Relationship) :
    SameOn X R (net.updateRelationship r f) (net'.updateRelationship r f) where
  config := h.config
  vars := h.vars
  rels s hs := by
    rw [relationshipAt_updateRelationship, relationshipAt_updateRelationship, h.rels s hs]

theorem updateVariable_of_notMem (net : Network) {v : VariableId} (hv : v ∉ X)
    (f : Variable → Variable) : SameOn X R net (net.updateVariable v f) where
  config := rfl
  vars w hw := by
    rw [variableAt_updateVariable, if_neg]
    rintro rfl
    exact hv hw
  rels _ _ := rfl

theorem updateRelationship_of_notMem (net : Network) {r : RelationshipId} (hr : r ∉ R)
    (f : Relationship → Relationship) : SameOn X R net (net.updateRelationship r f) where
  config := rfl
  vars _ _ := rfl
  rels s hs := by
    rw [relationshipAt_updateRelationship, if_neg]
    rintro rfl
    exact hr hs

end SameOn

end Network

open Network

def Task.On (X : Set VariableId) (R : Set RelationshipId) : Task → Prop
  | .write v _ => v ∈ X
  | .solve r => r ∈ R
  | .each _ rs => ∀ r ∈ rs, r ∈ R

section Tree

variable {task : Task} {run run' part : Run} {depth : Nat} {written : List VariableId}
  {outcome : Option Fault}

theorem Unfolds.writes_on (h : Unfolds d task run depth written outcome run')
    (hi : run.network.Integrity) (hs : run.network.Split X R) (ht : task.On X R) :
    ∀ v ∈ written, v ∈ X := by
  induction h with
  | unknown | contradicts | agrees | absent | waits | refuses | done => simp
  | @stores _ _ _ value _ _ _ _ hx hu _ ih =>
    have hadv := advance_store hx hu value
    rw [List.forall_mem_cons]
    exact ⟨ht, ih (hadv.integrity hi) (hs.advance hadv) (hs.attached hi hx ht)⟩
  | derives hr hd _ ih | restores hr hd _ ih =>
    have hadv := advance_mark (d := d) hr
    exact ih (hadv.integrity hi) (hs.advance hadv) (hs.target hr hd ht)
  | skips _ _ ih => exact ih hi hs (List.forall_mem_cons.mp ht).2
  | turns _ h _ ih ih' =>
    have hadv := h.cascade.advance
    obtain ⟨hr, hrs⟩ := List.forall_mem_cons.mp ht
    rw [List.forall_mem_append]
    exact ⟨ih hi hs hr, ih' (hadv.integrity hi) (hs.advance hadv) hrs⟩
  | stops _ _ ih => exact ih hi hs (List.forall_mem_cons.mp ht).1

/-- What begins on the other side changes nothing on this one. -/
theorem Unfolds.aside (h : Unfolds d task run depth written outcome run')
    (hi : run.network.Integrity) (hs : run.network.Split X R) (ht : task.On Xᶜ Rᶜ) :
    SameOn X R run.network run'.network := by
  induction h with
  | unknown | contradicts | agrees | absent | waits | refuses | done => exact .refl _ _ _
  | @stores _ _ _ value _ _ _ _ hx hu _ ih =>
    have hadv := advance_store hx hu value
    exact (SameOn.updateVariable_of_notMem _ ht _).trans
      (ih (hadv.integrity hi) (hs.advance hadv) (hs.compl.attached hi hx ht))
  | derives hr hd _ ih =>
    have hadv := advance_mark (d := d) hr
    exact (SameOn.updateRelationship_of_notMem _ ht _).trans
      (ih (hadv.integrity hi) (hs.advance hadv) (hs.compl.target hr hd ht))
  | restores hr hd _ ih =>
    have hadv := advance_mark (d := d) hr
    exact ((SameOn.updateRelationship_of_notMem _ ht _).trans
      (ih (hadv.integrity hi) (hs.advance hadv) (hs.compl.target hr hd ht))).trans
        (SameOn.updateRelationship_of_notMem _ ht _)
  | skips _ _ ih => exact ih hi hs (List.forall_mem_cons.mp ht).2
  | turns _ h _ ih ih' =>
    have hadv := h.cascade.advance
    obtain ⟨hr, hrs⟩ := List.forall_mem_cons.mp ht
    exact (ih hi hs hr).trans (ih' (hadv.integrity hi) (hs.advance hadv) hrs)
  | stops _ _ ih => exact ih hi hs (List.forall_mem_cons.mp ht).1

theorem Unfolds.alongside (h : Unfolds d task run depth written none run')
    (hi : run.network.Integrity) (hs : run.network.Split X R) (ht : task.On X R)
    (hp : SameOn X R run.network part.network) : ∃ part',
      Unfolds d task part depth written none part' ∧ SameOn X R run'.network part'.network := by
  generalize hnone : none = outcome at h
  induction h generalizing part with
  | unknown | contradicts | refuses | restores | stops => cases hnone
  | agrees hx hh hc =>
    exact ⟨part, .agrees ((hp.vars _ ht).trans hx) hh (hp.config ▸ hc), hp⟩
  | @stores run run' v value x depth written outcome hx hu _ ih =>
    have hadv := advance_store hx hu value
    have hp' : SameOn X R (run.store d v x value).network (part.store d v x value).network :=
      hp.updateVariable v _
    obtain ⟨part', h, hp'⟩ :=
      ih (hadv.integrity hi) (hs.advance hadv) (hs.attached hi hx ht) hp' hnone
    exact ⟨part', .stores ((hp.vars _ ht).trans hx) hu h, hp'⟩
  | absent hr => exact ⟨part, .absent ((hp.rels _ ht).trans hr), hp⟩
  | waits hr hd =>
    exact ⟨part, .waits ((hp.rels _ ht).trans hr) ((hp.derive hs hr ht).trans hd), hp⟩
  | @derives run run' r rel t value depth written hr hd _ ih =>
    have hadv := advance_mark (d := d) hr
    have hp' : SameOn X R (run.mark r (some d)).network (part.mark r (some d)).network :=
      hp.updateRelationship r _
    obtain ⟨part', h, hp'⟩ :=
      ih (hadv.integrity hi) (hs.advance hadv) (hs.target hr hd ht) hp' hnone
    exact ⟨part', .derives ((hp.rels _ ht).trans hr) ((hp.derive hs hr ht).trans hd) h, hp'⟩
  | done => exact ⟨part, .done, hp⟩
  | skips hm _ ih =>
    obtain ⟨hr, hrs⟩ := List.forall_mem_cons.mp ht
    obtain ⟨part', h, hp'⟩ := ih hi hs hrs hp hnone
    exact ⟨part', .skips ((hp.isMarked hr).trans hm) h, hp'⟩
  | turns hg h _ ih ih' =>
    have hadv := h.cascade.advance
    obtain ⟨hr, hrs⟩ := List.forall_mem_cons.mp ht
    obtain ⟨mid', h, hmid⟩ := ih hi hs hr hp rfl
    obtain ⟨part', h', hp'⟩ := ih' (hadv.integrity hi) (hs.advance hadv) hrs hmid hnone
    exact ⟨part', .turns (fun hguard => hp.isMarked hr ▸ hg hguard) h h', hp'⟩

theorem Unfolds.turns_part {rs : List RelationshipId}
    (h : Unfolds d (.each false rs) run depth written none run')
    (hi : run.network.Integrity) (hs : run.network.Split X R)
    (hp : SameOn X R run.network part.network) : ∃ depth' part',
      Unfolds d (.each false (within R rs)) part depth' (within X written) none part' ∧
        SameOn X R run'.network part'.network := by
  induction rs generalizing run part depth written with
  | nil =>
    cases h
    exact ⟨0, part, .done, hp⟩
  | cons r rs ih =>
    cases h with
    | turns hg h h' =>
      have hadv := h.cascade.advance
      have hs' := hs.advance hadv
      rw [within_append]
      by_cases hr : r ∈ R
      · obtain ⟨mid', k, hmid⟩ := h.alongside hi hs hr hp
        obtain ⟨depth', part', k', hp'⟩ := ih h' (hadv.integrity hi) hs' hmid
        rw [within_cons_of_mem hr, within_eq_self (h.writes_on hi hs hr)]
        exact ⟨_, part', .turns (fun hfalse => absurd hfalse Bool.false_ne_true) k k', hp'⟩
      · have hmid := (h.aside hi hs hr).symm.trans hp
        rw [within_cons_of_notMem hr, within_eq_nil (h.writes_on hi hs.compl hr)]
        exact ih h' (hadv.integrity hi) hs' hmid

end Tree

theorem Unfolds.told {task : Task} {run run' : Run} {depth : Nat} {written : List VariableId}
    {outcome : Option Fault} (h : Unfolds d task run depth written outcome run') :
    Told d written run run' := by
  induction h with
  | unknown | contradicts | agrees | absent | waits | refuses | done => exact .refl d _
  | stores hx hu h ih => exact (Told.store hx hu _).append ih (advance_store hx hu _) h.cascade.advance
  | derives _ _ _ ih => exact ⟨⟨ih.learned.nodup, ih.learned.mem_iff⟩, ih.fired⟩
  | restores _ _ _ ih => exact ⟨⟨ih.learned.nodup, ih.learned.mem_iff⟩, ih.fired⟩
  | skips _ _ ih => exact ih
  | turns _ h h' ih ih' => exact ih.append ih' h.cascade.advance h'.cascade.advance
  | stops _ _ ih => exact ih

theorem Told.eq_nil {written : List VariableId} {run : Run} (h : Told d written run run) :
    written = [] := by
  refine List.eq_nil_iff_forall_not_mem.mpr fun v hv => ?_
  obtain ⟨hu, hk⟩ := (h.learned.mem_iff v).mp hv
  rw [hu] at hk
  cases hk

section Rounds

variable {run run' part : Run} {made : Nat} {outcome : Option Fault}

theorem Rounds.advance (h : Rounds d run made outcome run') :
    Advance d run.network run'.network := by
  induction h with
  | settles h | stops h => exact h.cascade.advance
  | repeats h _ _ ih => exact h.cascade.advance.trans ih

theorem Rounds.inert (h : Rounds d run made outcome run') (hs : run.network.Inert d) :
    run' = run := by
  induction h with
  | settles h | stops h => exact (h.cascade.inert_each hs).1
  | repeats h hn _ _ =>
    obtain ⟨rfl, -⟩ := h.cascade.inert_each hs
    exact absurd (fun _ _ hm => hm) hn

theorem Rounds.unique (h : Rounds d run made outcome run') {made' : Nat} {outcome' : Option Fault}
    {run'' : Run} (h' : Rounds d run made' outcome' run'') : outcome' = outcome ∧ run'' = run' := by
  induction h generalizing made' outcome' run'' with
  | settles h hn =>
    cases h' with
    | settles k => exact (h.unique k).2.2
    | stops k => exact (h.unique k).2.2
    | repeats k hn' =>
      obtain ⟨-, -, -, rfl⟩ := h.unique k
      exact absurd hn hn'
  | stops h =>
    cases h' with
    | settles k => exact (h.unique k).2.2
    | stops k => exact (h.unique k).2.2
    | repeats k => cases (h.unique k).2.2.1
  | repeats h hn _ ih =>
    cases h' with
    | settles k hn' =>
      obtain ⟨-, -, -, rfl⟩ := h.unique k
      exact absurd hn' hn
    | stops k => cases (h.unique k).2.2.1
    | repeats k _ k' =>
      obtain ⟨-, -, -, rfl⟩ := h.unique k
      exact ih k'

/-- A part on its own: the relationships of one side, in their order, with markers that keep
their promises. -/
structure Network.Alone (X : Set VariableId) (R : Set RelationshipId) (d : Digest)
    (net part : Network) : Prop where
  same : SameOn X R net part
  order : part.order = within R net.order
  integrity : part.Integrity
  grounded : part.Grounded d fun _ => False

/-- Rounds over both sides come to rounds over one of them, of which there may be fewer: what
that side does not need any more, it would not have noticed. -/
theorem Rounds.alone (h : Rounds d run made none run') (hi : run.network.Integrity)
    (hs : run.network.Split X R) (hp : run.network.Alone X R d part.network) :
    ∃ made' part' written, Rounds d part made' none part' ∧
      SameOn X R run'.network part'.network ∧ Told d written run run' ∧
      Told d (within X written) part part' := by
  generalize hnone : none = outcome at h
  induction h generalizing part with
  | stops => cases hnone
  | @settles run run' depth written h hn =>
    obtain ⟨depth', part', k, hsame⟩ := h.turns_part hi hs hp.same
    rw [← hp.order] at k
    refine ⟨1, part', written, .settles k ?_, hsame, h.told, k.told⟩
    intro r hr hm
    rw [hp.order, mem_within] at hr
    rw [hsame.isMarked hr.2] at hm
    rw [hp.same.isMarked hr.2]
    exact hn r hr.1 hm
  | @repeats run mid run' depth made written outcome h hn h' ih =>
    subst hnone
    have hadv := h.cascade.advance
    obtain ⟨depth', mid', k, hsame⟩ := h.turns_part hi hs hp.same
    rw [← hp.order] at k
    have hadv' := k.cascade.advance
    have hmid : mid.network.Alone X R d mid'.network := by
      refine ⟨hsame, ?_, hadv'.integrity hp.integrity, k.cascade.grounded _ hp.grounded⟩
      rw [hadv'.order, hadv.order, hp.order]
    obtain ⟨made', part', rest, k', hend, ht, ht'⟩ :=
      ih (hadv.integrity hi) (hs.advance hadv) hmid rfl
    by_cases hn' : part.network.MarksNothing d mid'.network
    · -- This part is done, and whatever the others still do leaves it as it is.
      obtain rfl := k'.inert (Passes.inert_of_grounded k.cascade hp.integrity hp.grounded)
      refine ⟨1, part', written ++ rest, .settles k hn', hend, h.told.append ht hadv h'.advance, ?_⟩
      rw [within_append, ht'.eq_nil, List.append_nil]
      exact k.told
    · refine ⟨made' + 1, part', written ++ rest, .repeats k hn' k', hend,
        h.told.append ht hadv h'.advance, ?_⟩
      rw [within_append]
      exact k.told.append ht' hadv' k'.advance

end Rounds

theorem Outcome.fault?_eq_none_iff {o : Outcome} : o.fault? = none ↔ o.result.isOk := by
  unfold fault?
  cases o.result <;> simp [Except.isOk, Except.toBool]

namespace Network

variable {net part : Network}

theorem Alone.start (hp : net.Alone X R d part) : (Propagation.start d ⟨net, []⟩).network.Alone X R d
    (Propagation.start d ⟨part, []⟩).network where
  same := ⟨hp.same.config, hp.same.vars, hp.same.rels⟩
  order := hp.order
  integrity := (SameGraph.of_counters part part.functions _).integrity hp.integrity
  grounded := hp.grounded

/-- What solving comes to on one side: it answers there as well, leaves the same behind, and
tells what is told there, in the same order. -/
structure SolvesAlone (X : Set VariableId) (R : Set RelationshipId) (d : Digest)
    (net part : Network) : Prop where
  answers : (part.perform (.solve d)).result.isOk
  same : SameOn X R (net.perform (.solve d)).network (part.perform (.solve d)).network
  told : ∃ written, net.Learned d written (net.perform (.solve d)).network ∧
    (net.perform (.solve d)).fired =
      written.flatMap ((net.perform (.solve d)).network.firings d) ∧
    (part.perform (.solve d)).fired =
      (within X written).flatMap ((net.perform (.solve d)).network.firings d)

theorem Alone.reaches (hp : net.Alone X R d part) (hi : net.Integrity) (hs : net.Split X R)
    (hok : (net.perform (.solve d)).result.isOk) : ∃ run' part' written,
      (net.perform (.solve d)).Reaches none run' ∧ (part.perform (.solve d)).Reaches none part' ∧
      SameOn X R run'.network part'.network ∧
      Told d written (Propagation.start d ⟨net, []⟩) run' ∧
      Told d (within X written) (Propagation.start d ⟨part, []⟩) part' := by
  have hi' : (Propagation.start d ⟨net, []⟩).network.Integrity :=
    (SameGraph.of_counters net net.functions _).integrity hi
  rw [← Outcome.fault?_eq_none_iff] at hok
  by_cases hf : net.config.fixpoint
  · obtain ⟨made, outcome, run', h, hreaches, -⟩ := solve_rounds hf d
    obtain rfl := hreaches.fault.symm.trans hok
    obtain ⟨made', part', written, k, hsame, ht, ht'⟩ := h.alone hi' hs hp.start
    obtain ⟨_, outcome', last, k', hreaches', -⟩ := solve_rounds (hp.same.config ▸ hf) d
    obtain ⟨rfl, rfl⟩ := k.unique k'
    exact ⟨run', last, written, hreaches, hreaches', hsame, ht, ht'⟩
  · obtain ⟨depth, written, outcome, run', h, hreaches⟩ := solve_unfolds hf d
    obtain rfl := hreaches.fault.symm.trans hok
    obtain ⟨_, part', k, hsame⟩ := h.turns_part hi' hs hp.start.same
    obtain ⟨_, _, outcome', last, k', hreaches'⟩ := solve_unfolds (hp.same.config ▸ hf) d
    rw [← hp.order] at k
    obtain ⟨-, rfl, rfl, rfl⟩ := k.unique k'
    exact ⟨run', last, written, hreaches, hreaches', hsame, h.told, k.told⟩

theorem Alone.solves (hp : net.Alone X R d part) (hi : net.Integrity) (hs : net.Split X R)
    (hok : (net.perform (.solve d)).result.isOk) : net.SolvesAlone X R d part := by
  obtain ⟨run', part', written, hreaches, hreaches', hsame, ht, ht'⟩ := hp.reaches hi hs hok
  refine ⟨Outcome.fault?_eq_none_iff.mp hreaches'.fault, ?_, written, ?_, ?_, ?_⟩
  · rw [hreaches.network, hreaches'.network]
    exact hsame
  · rw [hreaches.network]
    exact ⟨ht.learned.nodup, ht.learned.mem_iff⟩
  · rw [hreaches.fired, hreaches.network, ht.fired]
    rfl
  · have hrounds : (within X written).flatMap (part'.network.firings d) =
        (within X written).flatMap (run'.network.firings d) :=
      List.flatMap_congr fun v hv => hsame.firings (mem_within.mp hv).2
    rw [hreaches'.fired, hreaches.network, ht'.fired, hrounds]
    rfl

end Network

end ConstraintNet
