import ConstraintNet.Proofs.Derive
import ConstraintNet.Proofs.Settling
import ConstraintNet.Proofs.Tolerance

/-!
# Networks that are solved forwards

Where no result is pinned and no two relations share one, propagation can only run
from arguments to results. What a variable means is then fixed before anything is
solved, and solving a fresh digest finds it.
-/

set_option autoImplicit false

namespace ConstraintNet

namespace Network

variable {net base : Network} {d : Digest} {relation relation' : Relation}

def Relates (net : Network) (relation : Relation) : Prop :=
  ∃ r rel, net.relationshipAt r = some rel ∧ rel.relation = relation

/-- Results are unset, no argument of their own, and of one relation only. -/
structure Forward (net : Network) : Prop where
  unset : ∀ relation, net.Relates relation →
    ∃ x, net.variableAt relation.result = some x ∧ x.holding = .unset
  proper : ∀ relation, net.Relates relation → relation.result ∉ relation.arguments
  unique : ∀ relation relation', net.Relates relation → net.Relates relation' →
    relation.result = relation'.result → relation = relation'

/-- A variable means the value that is pinned in it, or what its relation computes
from what the arguments mean. -/
inductive Means (net : Network) : VariableId → Float → Prop
  | pinned {v : VariableId} {x : Variable} {value : Float}
      (hx : net.variableAt v = some x) (hp : x.holding.isPinned)
      (hv : x.holding.value? = some value) : Means net v value
  | computed {relation : Relation} {v : VariableId} {known : VariableId → Option Float}
      {value : Float} (hr : net.Relates relation) (he : relation.result = v)
      (hk : ∀ a ∈ relation.arguments, (known a).isSome)
      (hm : ∀ a ∈ relation.arguments, ∀ u, known a = some u → Means net a u)
      (hd : relation.derive known = .ok (.derived v value)) : Means net v value

theorem Forward.not_pinned (hf : net.Forward) (hr : net.Relates relation) {x : Variable}
    (hx : net.variableAt relation.result = some x) : ¬ x.holding.isPinned := by
  obtain ⟨y, hy, hu⟩ := hf.unset relation hr
  rw [hx] at hy
  cases hy
  simp [hu, Holding.isPinned]

theorem Means.unique (hf : net.Forward) {v : VariableId} {a b : Float} (ha : net.Means v a)
    (hb : net.Means v b) : a = b := by
  induction ha generalizing b with
  | pinned hx hp hv =>
    cases hb with
    | pinned hx' hp' hv' =>
      rw [hx] at hx'
      cases hx'
      rw [hv] at hv'
      exact Option.some.inj hv'
    | computed hr he => exact absurd hp (hf.not_pinned hr (he ▸ hx))
  | @computed relation v known value hr he hk hm hd ih =>
    cases hb with
    | pinned hx hp => exact absurd hp (hf.not_pinned hr (he ▸ hx))
    | @computed relation' _ known' _ hr' he' hk' hm' hd' =>
      have hsame := hf.unique _ _ hr hr' (he.trans he'.symm)
      subst hsame
      have hagree (w : VariableId) (hw : w ∈ relation.arguments) : known w = known' w := by
        obtain ⟨u, hu⟩ := Option.isSome_iff_exists.mp (hk w hw)
        obtain ⟨u', hu'⟩ := Option.isSome_iff_exists.mp (hk' w hw)
        rw [hu, hu', ih w hw u hu (hm' w hw u' hu')]
      rw [Relation.derive_forward_congr hk hagree, hd'] at hd
      cases hd
      rfl

theorem Means.isFinite (hw : net.WellHeld) {v : VariableId} {value : Float}
    (h : net.Means v value) : value.isFinite := by
  cases h with
  | pinned hx hp hv => exact (hw.held _ _ hx).finite hv
  | computed _ _ _ _ hd => exact Relation.isFinite_of_derive hd

open Classical in
noncomputable def meaning (net : Network) (v : VariableId) : Option Float :=
  if h : ∃ value, net.Means v value then some h.choose else none

theorem Forward.meaning_eq_some (hf : net.Forward) {v : VariableId} {value : Float} :
    net.meaning v = some value ↔ net.Means v value := by
  unfold meaning
  constructor
  · intro h
    split at h
    · rename_i hex
      cases h
      exact hex.choose_spec
    · cases h
  · intro h
    have hex : ∃ value, net.Means v value := ⟨value, h⟩
    rw [dif_pos hex, hex.choose_spec.unique hf h]

theorem Forward.meaning_pinned (hf : net.Forward) {v : VariableId} {x : Variable}
    (hx : net.variableAt v = some x) (hp : x.holding.isPinned) :
    net.meaning v = x.holding.value? := by
  cases hv : x.holding.value? with
  | some value => exact hf.meaning_eq_some.mpr (.pinned hx hp hv)
  | none => cases hh : x.holding <;> simp [hh, Holding.isPinned, Holding.value?] at hp hv

theorem Forward.meaning_result (hf : net.Forward) (hr : net.Relates relation) {value : Float} :
    net.meaning relation.result = some value ↔
      (∀ a ∈ relation.arguments, (net.meaning a).isSome) ∧
        relation.derive net.meaning = .ok (.derived relation.result value) := by
  rw [hf.meaning_eq_some]
  constructor
  · intro h
    cases h with
    | pinned hx hp => exact absurd hp (hf.not_pinned hr hx)
    | @computed relation' _ known _ hr' he hk hm hd =>
      have hsame := hf.unique _ _ hr' hr he
      subst hsame
      have hagree (w : VariableId) (hw : w ∈ relation'.arguments) : known w = net.meaning w := by
        obtain ⟨u, hu⟩ := Option.isSome_iff_exists.mp (hk w hw)
        rw [hu, hf.meaning_eq_some.mpr (hm w hw u hu)]
      refine ⟨fun w hw => ?_, ?_⟩
      · rw [← hagree w hw]
        exact hk w hw
      · rw [← Relation.derive_forward_congr hk hagree]
        exact hd
  · rintro ⟨hk, hd⟩
    exact .computed hr rfl hk (fun a _ u hu => hf.meaning_eq_some.mp hu) hd

/-- A relation whose arguments all mean something has a fault. -/
def Breaks (net : Network) : Prop :=
  ∃ relation fault, net.Relates relation ∧ (∀ a ∈ relation.arguments, (net.meaning a).isSome) ∧
    relation.derive net.meaning = .error fault

/-- In a run over `base` every known value is what the variable means, and no result
is known before its arguments. -/
structure Tracks (base : Network) (d : Digest) (net : Network) : Prop where
  graph : SameGraph base net
  config : net.config = base.config
  meant : ∀ v value, net.valueAt d v = some value → base.Means v value
  fed : ∀ relation, base.Relates relation → (net.valueAt d relation.result).isSome →
    ∀ a ∈ relation.arguments, (net.valueAt d a).isSome

theorem Tracks.congr (h : base.Tracks d net) {net' : Network} (hs : SameGraph net net')
    (hc : net'.config = net.config) (hv : net'.valueAt d = net.valueAt d) :
    base.Tracks d net' :=
  ⟨h.graph.trans hs, hc.trans h.config, hv ▸ h.meant, hv ▸ h.fed⟩

theorem Tracks.relates (h : base.Tracks d net) {r : RelationshipId} {rel : Relationship}
    (hr : net.relationshipAt r = some rel) : base.Relates rel.relation := by
  obtain ⟨rel', hr', he⟩ := h.graph.relationship_some hr
  exact ⟨r, rel', hr', he.symm⟩

/-- Whatever a relation has to say, it says of known arguments: the result alone is
never enough, since it is not known before them. -/
theorem Tracks.arguments_known (h : base.Tracks d net) (hr : base.Relates relation)
    (hd : relation.derive (net.valueAt d) ≠ .ok .pending) :
    ∀ a ∈ relation.arguments, (net.valueAt d a).isSome := by
  by_contra hn
  have hmissing : ∃ a ∈ relation.arguments, net.valueAt d a = none := by
    simpa using hn
  cases hresult : net.valueAt d relation.result with
  | none => exact hd (Relation.derive_waits hmissing hresult)
  | some value => exact hn (h.fed relation hr (by simp [hresult]))

theorem Tracks.meaning_eq (h : base.Tracks d net) (hf : base.Forward) {v : VariableId}
    (hk : (net.valueAt d v).isSome) : net.valueAt d v = base.meaning v := by
  obtain ⟨value, hv⟩ := Option.isSome_iff_exists.mp hk
  rw [hv, hf.meaning_eq_some.mpr (h.meant v value hv)]

theorem Tracks.derive_eq (h : base.Tracks d net) (hf : base.Forward)
    (hk : ∀ a ∈ relation.arguments, (net.valueAt d a).isSome) :
    relation.derive (net.valueAt d) = relation.derive base.meaning :=
  Relation.derive_forward_congr hk fun a ha => h.meaning_eq hf (hk a ha)

theorem Tracks.derived (h : base.Tracks d net) (hr : base.Relates relation) {t : VariableId}
    {value : Float} (hd : relation.derive (net.valueAt d) = .ok (.derived t value)) :
    t = relation.result ∧ base.Means relation.result value := by
  have hk := h.arguments_known hr (by rw [hd]; simp)
  have ht := Relation.derive_forward_target hk hd
  exact ⟨ht, .computed hr rfl hk (fun a _ u hu => h.meant a u hu) (ht ▸ hd)⟩

end Network

open Network

variable {base : Network} {d : Digest}

/-- What is about to be written is what the variable means, and comes after the arguments of its
relation. -/
def Task.Meant (base : Network) (d : Digest) (net : Network) : Task → Prop
  | .write v value => base.Means v value ∧ ∀ relation, base.Relates relation →
      relation.result = v → ∀ a ∈ relation.arguments, (net.valueAt d a).isSome
  | .solve _ | .each _ _ => True

theorem Network.Tracks.store {run : Run} (h : base.Tracks d run.network) {v : VariableId}
    {x : Variable} {value : Float} (hx : run.network.variableAt v = some x)
    (hu : x.holding.valueAt d = none) (hm : (Task.write v value).Meant base d run.network) :
    base.Tracks d (run.store d v x value).network := by
  have hadv := advance_store hx hu value
  have hvalue := valueAt_store (d := d) hx value
  refine ⟨h.graph.trans hadv.sameGraph, hadv.config.trans h.config, fun w u hw => ?_,
    fun relation hr hk a ha => ?_⟩
  · by_cases hvw : v = w
    · have hval : some value = some u := by
        rw [← hw]
        exact ((hvalue w).trans (if_pos hvw)).symm
      cases hval
      exact hvw ▸ hm.1
    · apply h.meant w u
      rw [← hw]
      exact ((hvalue w).trans (if_neg hvw)).symm
  · apply hadv.isSome_known
    by_cases hvr : relation.result = v
    · exact hm.2 relation hr hvr a ha
    · refine h.fed relation hr ?_ a ha
      rw [← (hvalue relation.result).trans (if_neg (Ne.symm hvr))]
      exact hk

theorem Cascade.tracks {task : Task} {run run' : Run} {outcome : Option Fault}
    (h : Cascade d task run outcome run') (hf : base.Forward) (hw : base.WellHeld)
    (hc : base.config.flaw? = none) (ht : base.Tracks d run.network)
    (hm : task.Meant base d run.network) :
    base.Tracks d run'.network ∧ (outcome ≠ none → base.Breaks) := by
  induction h with
  | @unknown run v value hx =>
    have hlive : (run.network.variableAt v).isSome := by
      rw [ht.graph.isSome_variableAt]
      cases hm.1 with
      | pinned hx => simp [hx]
      | computed hr he =>
        obtain ⟨y, hy, -⟩ := hf.unset _ hr
        simp [← he, hy]
    rw [hx] at hlive
    cases hlive
  | @contradicts run v value held x hx hh hdiff =>
    have heq := (ht.meant v held ((valueAt_eq hx).trans hh)).unique hf hm.1
    subst heq
    rw [ht.config] at hdiff
    exact absurd (abs_sub_self_le hc (hm.1.isFinite hw)) hdiff
  | agrees => exact ⟨ht, fun hn => absurd rfl hn⟩
  | stores hx hu _ ih => exact ih (ht.store hx hu hm) trivial
  | absent => exact ⟨ht, fun hn => absurd rfl hn⟩
  | waits => exact ⟨ht, fun hn => absurd rfl hn⟩
  | @refuses run r rel fault hr hd =>
    have hrel := ht.relates hr
    have hk := ht.arguments_known hrel (by rw [hd]; simp)
    refine ⟨ht, fun _ => ⟨rel.relation, fault, hrel, fun a ha => ?_, ?_⟩⟩
    · rw [← ht.meaning_eq hf (hk a ha)]
      exact hk a ha
    · rw [← ht.derive_eq hf hk]
      exact hd
  | @derives run run' r rel t value hr hd _ ih =>
    have hrel := ht.relates hr
    obtain ⟨rfl, hmeans⟩ := ht.derived hrel hd
    have hk := ht.arguments_known hrel (by rw [hd]; simp)
    refine ih (ht.congr (sameGraph_mark _ _ _) rfl rfl) ⟨hmeans, fun relation hr' he => ?_⟩
    rw [hf.unique _ _ hr' hrel he]
    exact hk
  | @restores run run' r rel t value fault hr hd _ ih =>
    have hrel := ht.relates hr
    obtain ⟨rfl, hmeans⟩ := ht.derived hrel hd
    have hk := ht.arguments_known hrel (by rw [hd]; simp)
    have hstopped := ih (ht.congr (sameGraph_mark _ _ _) rfl rfl)
      ⟨hmeans, fun relation hr' he => by
        rw [hf.unique _ _ hr' hrel he]
        exact hk⟩
    exact ⟨hstopped.1.congr (sameGraph_mark _ _ _) rfl rfl, fun _ => hstopped.2 (Option.some_ne_none fault)⟩
  | done => exact ⟨ht, fun hn => absurd rfl hn⟩
  | skips _ _ ih => exact ih ht trivial
  | turns _ _ _ ih ih' => exact ih' (ih ht trivial).1 trivial
  | stops _ _ ih => exact ih ht trivial

theorem Passed.tracks {run run' : Run} (h : Passed d run run') (hf : base.Forward)
    (hw : base.WellHeld) (hc : base.config.flaw? = none) (ht : base.Tracks d run.network) :
    base.Tracks d run'.network := by
  induction h with
  | refl => exact ht
  | tail _ hp ih => exact (Cascade.tracks hp hf hw hc ih trivial).1

namespace Network

variable {net : Network}

/-- A digest in which solving ended well: what is pinned is known, markers keep their promise,
and what is unmarked has nothing to say. -/
structure Complete (base : Network) (d : Digest) (net : Network) : Prop where
  tracks : base.Tracks d net
  pins : ∀ v x, base.variableAt v = some x → x.holding.isPinned →
    net.valueAt d v = x.holding.value?
  grounded : net.Grounded d fun _ => False
  quiet : ∀ r, ¬ net.IsMarked d r → net.Quiet d r

theorem Complete.result_known (h : base.Complete d net) {relation : Relation}
    (hr : base.Relates relation) (hd : relation.derive (net.valueAt d) ≠ .ok .pending) :
    (net.valueAt d relation.result).isSome := by
  obtain ⟨r, rel, hrel, rfl⟩ := hr
  obtain ⟨rel', hrel', he⟩ := h.tracks.graph.symm.relationship_some hrel
  rw [he] at hd ⊢
  by_cases hm : net.IsMarked d r
  · exact h.grounded r hm id _ ⟨rel', hrel', rel'.relation.result_mem_operands⟩
  · exact absurd (h.quiet r hm rel' hrel') hd

theorem Complete.known (h : base.Complete d net) (hf : base.Forward) {v : VariableId}
    {value : Float} (hm : base.Means v value) : net.valueAt d v = some value := by
  induction hm with
  | pinned hx hp hv =>
    rw [h.pins _ _ hx hp]
    exact hv
  | @computed relation v known value hr he hk hm hd ih =>
    subst he
    have hagree (w : VariableId) (hw : w ∈ relation.arguments) :
        known w = net.valueAt d w := by
      obtain ⟨u, hu⟩ := Option.isSome_iff_exists.mp (hk w hw)
      rw [hu, ih w hw u hu]
    have hderive := Relation.derive_forward_congr hk hagree
    have hknown := h.result_known hr (by rw [← hderive, hd]; simp)
    obtain ⟨held, hheld⟩ := Option.isSome_iff_exists.mp hknown
    have hmeant := h.tracks.meant _ _ hheld
    rw [hheld, hmeant.unique hf (.computed hr rfl hk hm hd)]

theorem Complete.valueAt_eq (h : base.Complete d net) (hf : base.Forward) (v : VariableId) :
    net.valueAt d v = base.meaning v := by
  cases hv : base.meaning v with
  | some value => exact h.known hf (hf.meaning_eq_some.mp hv)
  | none =>
    cases hu : net.valueAt d v with
    | none => rfl
    | some value =>
      rw [hf.meaning_eq_some.mpr (h.tracks.meant v value hu)] at hv
      cases hv

theorem Complete.not_breaks (h : base.Complete d net) (hf : base.Forward) : ¬ base.Breaks := by
  rintro ⟨relation, fault, hr, hk, hd⟩
  have hsame : net.valueAt d = base.meaning := funext (h.valueAt_eq hf)
  have hknown := h.result_known hr (by rw [hsame, hd]; simp)
  rw [hsame] at hknown
  obtain ⟨value, hvalue⟩ := Option.isSome_iff_exists.mp hknown
  have hderived := ((hf.meaning_result hr).mp hvalue).2
  rw [hd] at hderived
  cases hderived

theorem Forward.tracks_start (hf : net.Forward) (hw : net.WellHeld) (hd : net.lastDigest < d) :
    net.Tracks d (Propagation.start d ⟨net, []⟩).network := by
  refine ⟨SameGraph.of_counters net net.functions _, rfl, fun v value hv => ?_,
    fun relation hr hk => ?_⟩
  · change net.valueAt d v = some value at hv
    cases hx : net.variableAt v with
    | none => simp [valueAt, hx] at hv
    | some x =>
      rw [valueAt_eq hx] at hv
      have hvalue := Holding.value?_of_valueAt hv
      cases hh : x.holding with
      | unset => simp [hh, Holding.valueAt] at hv
      | explicit u => exact .pinned hx (by rw [hh]; rfl) hvalue
      | environment u => exact .pinned hx (by rw [hh]; rfl) hvalue
      | solved u at? =>
        simp only [hh, Holding.valueAt] at hv
        split at hv
        · rename_i hat
          rw [hat] at hh
          exact absurd ((hw.held v x hx).digest_le hh) (Nat.not_le_of_lt hd)
        · cases hv
  · obtain ⟨x, hx, hu⟩ := hf.unset relation hr
    change (net.valueAt d relation.result).isSome at hk
    simp [valueAt_eq hx, hu, Holding.valueAt] at hk

theorem WellHeld.grounded_start (hw : net.WellHeld) (hd : net.lastDigest < d) :
    (Propagation.start d ⟨net, []⟩).network.Grounded d fun _ => False := by
  intro r hm
  obtain ⟨rel, hrel, hmarker⟩ := isMarked_iff.mp hm
  exact absurd (hw.marked r rel hrel d hmarker) (Nat.not_le_of_lt hd)

theorem Forward.complete (hf : net.Forward) (hr : Reachable net) (hd : net.lastDigest < d)
    {report : Report} {run' : Run} (h : Propagation.Answered d ⟨net, []⟩ report run') :
    net.Complete d run'.network := by
  obtain ⟨mid, hpre, hlast, -⟩ := h.passed
  have hstart : SameGraph net (Propagation.start d ⟨net, []⟩).network :=
    SameGraph.of_counters net net.functions _
  have hmid := Passed.tracks hpre hf hr.wellHeld hr.flawless (hf.tracks_start hr.wellHeld hd)
  have himid := (Passed.advance hpre).integrity (hstart.integrity hr.integrity)
  have hadv := (Passed.advance hpre).trans hlast.advance
  have hground := hr.wellHeld.grounded_start hd
  exact {
    tracks := (Cascade.tracks hlast hf hr.wellHeld hr.flawless hmid trivial).1
    pins := by
      intro v x hx hpin
      obtain ⟨value, hvalue⟩ : ∃ value, x.holding.value? = some value := by
        cases hh : x.holding <;> simp [hh, Holding.isPinned, Holding.value?] at hpin ⊢
      have hheld : net.valueAt d v = some value := by
        rw [valueAt_eq hx, Holding.valueAt_of_isPinned hpin, hvalue]
      rw [hvalue]
      exact hadv.known hheld
    grounded := Cascade.grounded hlast _ (Passed.grounded hpre hground)
    quiet := fun r hm => Passes.quiet hlast himid hm }

theorem Forward.stopped (hf : net.Forward) (hr : Reachable net) (hd : net.lastDigest < d)
    {fault : Fault} {run' : Run} (h : Propagation.Stopped d ⟨net, []⟩ fault run') :
    net.Tracks d run'.network ∧ net.Breaks := by
  obtain ⟨mid, hpre, hlast⟩ := h
  have hmid := Passed.tracks hpre hf hr.wellHeld hr.flawless (hf.tracks_start hr.wellHeld hd)
  obtain ⟨htracks, hbreaks⟩ := Cascade.tracks hlast hf hr.wellHeld hr.flawless hmid trivial
  exact ⟨htracks, hbreaks (Option.some_ne_none fault)⟩

/-- Solving a fresh digest forwards finds nothing but what is meant; it finds all of it
if it answers, and it fails exactly if a relation breaks. -/
theorem forward_solve (hr : Reachable net) (hf : net.Forward) (hd : net.lastDigest < d) :
    let outcome := net.perform (.solve d)
    (∀ v value, outcome.network.valueAt d v = some value → net.meaning v = some value) ∧
    (¬ net.Breaks → ∀ v, outcome.network.valueAt d v = net.meaning v) ∧
    (¬ net.Breaks ↔ ∃ report, outcome.result = .ok (.report report)) ∧
    (net.Breaks ↔ ∃ fault, outcome.result = .error fault) := by
  intro outcome
  rcases net.perform_solve d with ⟨report, run', hp, hanswered⟩ | ⟨fault, run', hp, hstopped⟩
  · change outcome = _ at hp
    rw [hp]
    have hcomplete := hf.complete hr hd hanswered
    have hfine := hcomplete.not_breaks hf
    refine ⟨fun v value hv => ?_, fun _ => hcomplete.valueAt_eq hf, ?_, ?_⟩
    · rw [← hcomplete.valueAt_eq hf v]
      exact hv
    · exact iff_of_true hfine ⟨report, rfl⟩
    · apply iff_of_false hfine
      rintro ⟨fault, h⟩
      cases h
  · change outcome = _ at hp
    rw [hp]
    obtain ⟨htracks, hbroken⟩ := hf.stopped hr hd hstopped
    refine ⟨fun v value hv => hf.meaning_eq_some.mpr (htracks.meant v value hv),
      fun hn => absurd hbroken hn, ?_, ?_⟩
    · apply iff_of_false fun hn => hn hbroken
      rintro ⟨report, h⟩
      cases h
    · exact iff_of_true hbroken ⟨fault, rfl⟩

end Network

end ConstraintNet
