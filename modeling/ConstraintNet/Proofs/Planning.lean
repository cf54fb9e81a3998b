import ConstraintNet.Proofs.Inverse

/-!
# The plan of a defined expression

A variable is defined by an expression with one unknown name, and given a value. The
relationships on the route down to the name then aim at the side that is sought, the
definition comes last and aims at the root, and all others aim at their results. That is a
plan, and solving by it brings the value all the way down.
-/

set_option autoImplicit false

namespace ConstraintNet.Network

variable {base net : Network} {e part : Expr} {x : String} {root goal target v c : VariableId}
  {w value : Float} {next : RelationshipId → Option VariableId}
  {wanted : VariableId → Option Float} {r s : RelationshipId} {relation relation' : Relation}
  {d : Digest}

theorem mem_names_of_inverse (ha : e.Arithmetic) (h : base.inverse x e w = some value) :
    x ∈ e.names := by
  induction ha generalizing w with
  | ident name =>
    have hname : name = x := by
      by_contra hne
      simp [inverse, hne] at h
    rw [hname]
    exact List.mem_singleton_self _
  | number => cases h
  | op op _ _ ihl ihr =>
    rcases inverse_op h with ⟨hx, -⟩ | ⟨-, a, u, -, -, hvalue⟩
    · exact List.mem_append_left _ hx
    · exact List.mem_append_right _ (ihr hvalue)

theorem isSome_direct_of_inverse (ha : e.Arithmetic) (h : base.inverse x e w = some value)
    (hp : part.Part e) (hn : x ∉ part.names) : (base.direct part).isSome := by
  induction ha generalizing w with
  | ident name =>
    cases hp
    exact absurd (mem_names_of_inverse (.ident name) h) hn
  | number => cases h
  | op op hl hr ihl ihr =>
    rcases inverse_op h with ⟨-, b, u, hb, -, hvalue⟩ | ⟨-, a, u, ha, -, hvalue⟩
    · cases hp with
      | refl => exact absurd (mem_names_of_inverse (.op op hl hr) h) hn
      | left hp => exact ihl hvalue hp
      | right hp => exact isSome_direct_part hp (by rw [hb]; rfl)
    · cases hp with
      | refl => exact absurd (mem_names_of_inverse (.op op hl hr) h) hn
      | left hp => exact isSome_direct_part hp (by rw [ha]; rfl)
      | right hp => exact ihr hvalue hp

theorem direct_eq_none_of_mem (ha : e.Arithmetic) (hx : x ∈ e.names)
    (hn : base.direct (.ident x) = none) : base.direct e = none := by
  by_contra hsome
  have hx' := isSome_direct_part (ha.part_of_mem_names hx) (Option.isSome_iff_ne_none.mpr hsome)
  rw [hn] at hx'
  cases hx'

def aiming (net : Network) (root : VariableId) (next : RelationshipId → Option VariableId)
    (r : RelationshipId) : VariableId :=
  ((next r).or ((net.relationshipAt r).map (·.relation.result))).getD root

theorem aiming_of_next (h : next r = some c) : net.aiming root next r = c := by
  rw [aiming, h]
  rfl

theorem aiming_of_result (hr : net.RelatesAt r relation) (h : next r = none) :
    net.aiming root next r = relation.result := by
  obtain ⟨rel, hrel, rfl⟩ := hr
  rw [aiming, h, hrel]
  rfl

noncomputable def goals (net : Network) (target : VariableId) (w : Float)
    (wanted : VariableId → Option Float) (v : VariableId) : Option Float :=
  if v = target then some w else (net.meaning v).or (wanted v)

theorem goals_of_meaning (hv : v ≠ target) (h : net.meaning v = some value) :
    net.goals target w wanted v = some value := by
  rw [goals, if_neg hv, h]
  rfl

theorem goals_of_unknown (hv : v ≠ target) (h : net.meaning v = none) :
    net.goals target w wanted v = wanted v := by
  rw [goals, if_neg hv, h]
  rfl

def definedAs (net : Network) (target root : VariableId) (value : Float) : Network :=
  (net.define target root).updateVariable target (·.assign value .explicit)

theorem relatesAt_definedAs : (net.definedAs target root value).RelatesAt r relation ↔
    (r = ⟨net.relationships.next⟩ ∧ relation = .equality target root) ∨
      net.RelatesAt r relation :=
  relatesAt_relate

theorem valueAt_definedAs {y : Variable} (hy : net.variableAt target = some y)
    (hk : y.kind ≠ .constant) (d : Digest) (v : VariableId) :
    (net.definedAs target root value).valueAt d v =
      if v = target then some value else net.valueAt d v := by
  have hheld {u : VariableId} {z : Variable} (hz : net.variableAt u = some z) :
      ∃ z', (net.define target root).variableAt u = some z' ∧ z'.holding = z.holding ∧
        z'.kind = z.kind := by
    show ∃ z', (net.relate (.equality target root)).2.variableAt u = some z' ∧ _
    rw [variableAt_relate, hz]
    split
    · exact ⟨_, rfl, by simp, by simp⟩
    · exact ⟨z, rfl, rfl, rfl⟩
  by_cases hv : v = target
  · subst hv
    obtain ⟨y', hy', -, hk'⟩ := hheld hy
    have hassigned : (y'.assign value .explicit).holding = .explicit value := by
      have hfree : y'.isConstant = false := by simp [Variable.isConstant, hk', hk]
      simp [Variable.assign, Variable.hold, hfree, Holding.ofState]
    have hat : (net.definedAs v root value).variableAt v = some (y'.assign value .explicit) := by
      rw [definedAs, variableAt_updateVariable, if_pos rfl, hy']
      rfl
    rw [if_pos rfl, valueAt_eq hat, hassigned]
    rfl
  · have hat : (net.definedAs target root value).variableAt v =
        (net.define target root).variableAt v := by
      rw [definedAs, variableAt_updateVariable, if_neg (Ne.symm hv)]
    rw [if_neg hv]
    cases hz : net.variableAt v with
    | some z =>
      obtain ⟨z', hz', hh, -⟩ := hheld hz
      rw [valueAt_eq (hat.trans hz'), valueAt_eq hz, hh]
    | none =>
      have hnone : (net.define target root).variableAt v = none := by
        rw [← Option.not_isSome_iff_eq_none]
        show ¬ ((net.relate (.equality target root)).2.variableAt v).isSome
        rw [isSome_variableAt_relate, hz]
        exact Bool.false_ne_true
      simp [valueAt, hat, hnone, hz]

/-- What has been brought in for an expression by lowering it, with the route of a value `w`
of it down to the one name without a value. The variable that the expression is to define
stands apart. -/
structure Inverted (base net : Network) (e : Expr) (x : String) (root goal target : VariableId)
    (w value : Float) (next : RelationshipId → Option VariableId)
    (wanted : VariableId → Option Float) : Prop where
  arithmetic : e.Arithmetic
  carried : base.inverse x e w = some value
  unknown : base.direct (.ident x) = none
  blank : ∀ r, base.relationshipAt r = none
  grown : Grows base net
  forward : net.Forward
  wellHeld : net.WellHeld
  chained : Chained (fun name => (Expr.ident name).Part e) [root] base net
  reads : base.Reads net e
  stands : net.Lowered e root
  named : net.Lowered (.ident x) goal
  route : Route base base net x e root goal w value next wanted
  finite : w.isFinite
  settable : ∃ y, net.variableAt target = some y ∧ y.kind ≠ .constant
  apart : ∀ r, ¬ net.Touches r target
  root_ne : root ≠ target
  goal_ne : goal ≠ target

namespace Inverted

variable (h : Inverted base net e x root goal target w value next wanted)
include h

theorem meaning_part
    (hp : part.Part e) (hl : net.Lowered part v) : net.meaning v = base.direct part :=
  hl.meaning_eq h.grown.extends h.forward h.wellHeld part (h.reads.of_part hp)

theorem meaning_eq_none
    (hp : part.Part e) (hx : x ∈ part.names) (hl : net.Lowered part v) : net.meaning v = none := by
  rw [h.meaning_part hp hl]
  exact direct_eq_none_of_mem (h.arithmetic.of_part hp) hx h.unknown

theorem ne_target (hr : net.RelatesAt r relation) (hv : v ∈ relation.operands) : v ≠ target := by
  rintro rfl
  exact h.apart r ((hr.touches_iff v).mpr hv)

theorem link_meaning (hr : net.RelatesAt r relation) (hl : Link base net x e wanted relation c) :
    net.meaning c = none ∧ net.meaning relation.result = none ∧
      ∀ a ∈ relation.arguments, a ≠ c → (net.meaning a).isSome := by
  have hrel := hr.relates
  cases hl with
  | @left op v _ b left right _ known _ hpart hx hn hl hr' hb =>
    have hleft := h.meaning_eq_none (.trans (.left .refl) hpart) hx hl
    have hright := h.meaning_part (.trans (.right .refl) hpart) hr'
    refine ⟨hleft, ?_, fun a ha hne => ?_⟩
    · show net.meaning v = none
      rw [h.forward.meaning_arithmetic hrel, hleft]
      rfl
    · obtain rfl : a = b := by simpa [Relation.arguments, hne] using ha
      rw [hright, hb]
      rfl
  | @right op v a _ left right _ known _ hpart hx hn hl hr' ha =>
    have hleft := h.meaning_part (.trans (.left .refl) hpart) hl
    have hright := h.meaning_eq_none (.trans (.right .refl) hpart) hx hr'
    refine ⟨hright, ?_, fun b hb hne => ?_⟩
    · show net.meaning v = none
      rw [h.forward.meaning_arithmetic hrel, hright, hleft, ha]
      rfl
    · obtain rfl : b = a := by simpa [Relation.arguments, hne] using hb
      rw [hleft, ha]
      rfl

theorem link_derives (hr : net.RelatesAt r relation) (hl : Link base net x e wanted relation c) :
    ∃ u, net.goals target w wanted c = some u ∧
      relation.derive (fun v => if v = c then none else net.goals target w wanted v) =
        .ok (.derived c u) := by
  obtain ⟨hc, hresult, -⟩ := h.link_meaning hr hl
  have hne {v : VariableId} (hv : v ∈ relation.operands) : v ≠ target := h.ne_target hr hv
  have hproper := h.forward.proper relation hr.relates
  have hfrom : relation.result ≠ c := fun he => hproper (he ▸ hl.mem_arguments)
  have hgoal : net.goals target w wanted c = wanted c :=
    goals_of_unknown (hne (List.mem_cons_of_mem _ hl.mem_arguments)) hc
  have hstart : net.goals target w wanted relation.result = wanted relation.result :=
    goals_of_unknown (hne relation.result_mem_operands) hresult
  cases hl with
  | @left op v _ b left right _ known u hpart hx hn hl hr' hb hw hu hwant =>
    have hright := h.meaning_part (.trans (.right .refl) hpart) hr'
    have hside : b ≠ c := by
      rintro rfl
      rw [hright, hb] at hc
      cases hc
    refine ⟨u, hgoal.trans hwant, Relation.derive_left ?_ (if_pos rfl) ?_ hu⟩
    · exact (if_neg hfrom).trans (hstart.trans hw)
    · rw [if_neg hside]
      exact goals_of_meaning (hne (by simp [Relation.operands, Relation.arguments]))
        (hright.trans hb)
  | @right op v a _ left right _ known u hpart hx hn hl hr' ha hw hu hwant =>
    have hleft := h.meaning_part (.trans (.left .refl) hpart) hl
    have hside : a ≠ c := by
      rintro rfl
      rw [hleft, ha] at hc
      cases hc
    refine ⟨u, hgoal.trans hwant, Relation.derive_right ?_ ?_ (if_pos rfl) hu⟩
    · exact (if_neg hfrom).trans (hstart.trans hw)
    · rw [if_neg hside]
      exact goals_of_meaning (hne (by simp [Relation.operands, Relation.arguments]))
        (hleft.trans ha)

theorem result_derives (hr : net.RelatesAt r relation) (hm : (net.meaning relation.result).isSome) :
    ∃ u, net.goals target w wanted relation.result = some u ∧
      relation.derive (fun v => if v = relation.result then none
        else net.goals target w wanted v) = .ok (.derived relation.result u) := by
  have hrel : net.Relates relation := hr.relates
  obtain ⟨u, hu⟩ := Option.isSome_iff_exists.mp hm
  obtain ⟨hknown, hderive⟩ := (h.forward.meaning_result hrel).mp hu
  refine ⟨u, goals_of_meaning (h.ne_target hr relation.result_mem_operands) hu, ?_⟩
  rw [← hderive]
  apply Eq.symm
  apply Relation.derive_forward_congr hknown
  intro a ha
  obtain ⟨y, hy⟩ := Option.isSome_iff_exists.mp (hknown a ha)
  have hne : a ≠ relation.result := fun he => h.forward.proper relation hrel (he ▸ ha)
  rw [if_neg hne, hy, goals_of_meaning (h.ne_target hr (List.mem_cons_of_mem _ ha)) hy]

theorem meaning_root : net.meaning root = none :=
  h.meaning_eq_none .refl (mem_names_of_inverse h.arithmetic h.carried) h.stands

theorem aiming_gate : net.aiming root next ⟨net.relationships.next⟩ = root := by
  have hnone : next ⟨net.relationships.next⟩ = none := by
    apply Option.eq_none_iff_forall_ne_some.mpr
    intro c hc
    obtain ⟨relation, hat, -⟩ := h.route.link _ c hc
    exact Nat.lt_irrefl _ hat.index_lt
  rw [aiming, hnone, relationshipAt_next]
  rfl

/-- A relationship aims at an argument without a meaning, if it is the definition or on the
route; or else at its result, which has one. -/
theorem turn (hr : (net.definedAs target root w).RelatesAt r relation) :
    (net.meaning (net.aiming root next r) = none ∧ net.aiming root next r ∈ relation.arguments ∧
      ((r = ⟨net.relationships.next⟩ ∧ relation = .equality target root) ∨
        (next r = some (net.aiming root next r) ∧ net.RelatesAt r relation))) ∨
    ((net.meaning (net.aiming root next r)).isSome ∧
      net.aiming root next r = relation.result ∧ net.RelatesAt r relation) := by
  rcases relatesAt_definedAs.mp hr with ⟨rfl, rfl⟩ | hr'
  · rw [h.aiming_gate]
    exact .inl ⟨h.meaning_root, List.mem_singleton_self _, .inl ⟨rfl, rfl⟩⟩
  · cases hn : next r with
    | some c =>
      have haim : net.aiming root next r = c := aiming_of_next hn
      obtain ⟨relation', hat, hl⟩ := h.route.link r c hn
      have hsame := hr'.unique hat
      subst hsame
      rw [haim]
      exact .inl ⟨(h.link_meaning hat hl).1, hl.mem_arguments, .inr ⟨rfl, hr'⟩⟩
    | none =>
      have haim : net.aiming root next r = relation.result := aiming_of_result hr' hn
      obtain ⟨part, hpart, hx, hl⟩ := h.route.others r relation (h.blank r) hr' hn
      rw [haim, h.meaning_part hpart hl]
      exact .inr ⟨isSome_direct_of_inverse h.arithmetic h.carried hpart hx, rfl, hr'⟩

theorem aim_ne_target (hr : (net.definedAs target root w).RelatesAt r relation) :
    net.aiming root next r ≠ target := by
  rcases h.turn hr with ⟨-, hmem, ⟨rfl, -⟩ | ⟨-, hr'⟩⟩ | ⟨-, hresult, hr'⟩
  · rw [h.aiming_gate]
    exact h.root_ne
  · exact h.ne_target hr' (List.mem_cons_of_mem _ hmem)
  · rw [hresult]
    exact h.ne_target hr' relation.result_mem_operands

theorem result_injective (hr : net.RelatesAt r relation) (hs : net.RelatesAt s relation')
    (he : relation.result = relation'.result) : r = s := by
  obtain ⟨rel, hrel, rfl⟩ := hr
  obtain ⟨rel', hrel', rfl⟩ := hs
  have hle := (h.chained.produces r rel (h.blank r) hrel).first s
    ⟨rel', hrel', he ▸ rel'.relation.result_mem_operands⟩
  have hge := (h.chained.produces s rel' (h.blank s) hrel').first r
    ⟨rel, hrel, he ▸ rel.relation.result_mem_operands⟩
  exact RelationshipId.index_inj.mp (le_antisymm hle hge)

theorem aiming_injective (hr : (net.definedAs target root w).RelatesAt r relation)
    (hs : (net.definedAs target root w).RelatesAt s relation')
    (he : net.aiming root next r = net.aiming root next s) : r = s := by
  have hgate {r s : RelationshipId} (hr : r = ⟨net.relationships.next⟩)
      (he : net.aiming root next r = net.aiming root next s) :
      next s ≠ some (net.aiming root next s) := by
    subst hr
    rw [← he, h.aiming_gate]
    exact h.route.answer s
  rcases h.turn hr with ⟨hnone, -, hr'⟩ | ⟨hsome, hresult, hr'⟩
  · rcases h.turn hs with ⟨-, -, hs'⟩ | ⟨hsome, -⟩
    · rcases hr' with ⟨hr', -⟩ | ⟨hr', -⟩
      · rcases hs' with ⟨hs', -⟩ | ⟨hs', -⟩
        · exact hr'.trans hs'.symm
        · exact absurd hs' (hgate hr' he)
      · rcases hs' with ⟨hs', -⟩ | ⟨hs', -⟩
        · exact absurd hr' (hgate hs' he.symm)
        · exact h.route.unique r s _ hr' (he ▸ hs')
    · rw [← he, hnone] at hsome
      cases hsome
  · rcases h.turn hs with ⟨hnone, -⟩ | ⟨-, hresult', hs'⟩
    · rw [he, hnone] at hsome
      cases hsome
    · exact h.result_injective hr' hs' (hresult.symm.trans (he.trans hresult'))

theorem upstream (hb : (net.definedAs target root w).Backward (net.aiming root next) r)
    (hne : r ≠ ⟨net.relationships.next⟩) :
    ∃ relation s, (net.definedAs target root w).RelatesAt r relation ∧
      (net.definedAs target root w).Backward (net.aiming root next) s ∧
      net.aiming root next s = relation.result := by
  obtain ⟨relation, hr, hback⟩ := hb
  rcases h.turn hr with ⟨-, -, ⟨hr', -⟩ | ⟨hn, hr'⟩⟩ | ⟨-, hresult, -⟩
  · exact absurd hr' hne
  · rcases h.route.upstream r _ relation hn hr' with he | ⟨s, hs⟩
    · have hdefined : (net.definedAs target root w).RelatesAt ⟨net.relationships.next⟩
          (.equality target root) := relatesAt_definedAs.mpr (.inl ⟨rfl, rfl⟩)
      refine ⟨relation, _, hr, ⟨_, hdefined, ?_⟩, h.aiming_gate.trans he.symm⟩
      rw [h.aiming_gate]
      exact h.root_ne
    · obtain ⟨relation', hat, hl⟩ := h.route.link s _ hs
      have haim : net.aiming root next s = relation.result := aiming_of_next hs
      refine ⟨relation, s, hr, ⟨relation', relatesAt_definedAs.mpr (.inr hat), ?_⟩, haim⟩
      rw [haim]
      exact fun he => h.forward.proper relation' hat.relates (he ▸ hl.mem_arguments)
  · exact absurd hresult hback

/-- Defining a variable by an inverted expression makes a plan, with the definition as its
gate. -/
theorem plan : (net.definedAs target root w).Plan (net.aiming root next)
    (net.goals target w wanted) ⟨net.relationships.next⟩ where
  aims r relation hr := by
    rcases h.turn hr with ⟨-, hmem, -⟩ | ⟨-, hresult, -⟩
    · exact List.mem_cons_of_mem _ hmem
    · exact hresult ▸ relation.result_mem_operands
  proper r relation hr := by
    rcases relatesAt_definedAs.mp hr with ⟨-, rfl⟩ | hr'
    · simpa [Relation.result, Relation.arguments] using h.root_ne.symm
    · exact h.forward.proper relation hr'.relates
  unique r s relation relation' := h.aiming_injective
  derives r relation hr := by
    rcases h.turn hr with ⟨-, -, ⟨rfl, rfl⟩ | ⟨hn, hr'⟩⟩ | ⟨hsome, hresult, hr'⟩
    · rw [h.aiming_gate]
      refine ⟨w, (goals_of_unknown h.root_ne h.meaning_root).trans h.route.start, ?_⟩
      simp [Relation.derive, Relation.solve, goals, h.root_ne.symm, h.finite]
    · obtain ⟨relation', hat, hl⟩ := h.route.link r _ hn
      have hsame := hr'.unique hat
      subst hsame
      exact h.link_derives hat hl
    · rw [hresult] at hsome ⊢
      exact h.result_derives hr' hsome
  finite v y hv := by
    unfold goals at hv
    split at hv
    · cases hv
      exact h.finite
    · cases hm : net.meaning v with
      | some u =>
        rw [hm] at hv
        cases hv
        exact (h.forward.meaning_eq_some.mp hm).isFinite h.wellHeld
      | none =>
        rw [hm] at hv
        exact h.route.finite h.finite v y hv
  upstream r := h.upstream
  sources v ht hne r relation hr he := by
    -- Besides the root, the definition touches nothing but the target.
    have htarget : v = target := by
      have hdefined : (net.definedAs target root w).RelatesAt ⟨net.relationships.next⟩
          (.equality target root) := relatesAt_definedAs.mpr (.inl ⟨rfl, rfl⟩)
      rw [h.aiming_gate] at hne
      simpa [Relation.operands, Relation.result, Relation.arguments, hne] using
        (hdefined.touches_iff v).mp ht
    subst htarget
    exact h.aim_ne_target hr he

theorem known_meant (hd : net.lastDigest < d) {y : Float} (hv : net.valueAt d v = some y) :
    net.meaning v = some y :=
  h.forward.meaning_eq_some.mpr ((h.forward.tracks_start h.wellHeld hd).meant v y hv)

theorem defined_valueAt (d : Digest) (v : VariableId) : (net.definedAs target root w).valueAt d v =
      if v = target then some w else net.valueAt d v := by
  obtain ⟨y, hy, hk⟩ := h.settable
  exact valueAt_definedAs hy hk d v

theorem known_wanted (hd : net.lastDigest < d) {y : Float}
    (hv : (net.definedAs target root w).valueAt d v = some y) :
    net.goals target w wanted v = some y := by
  rw [h.defined_valueAt] at hv
  by_cases htarget : v = target
  · rw [if_pos htarget] at hv
    rw [goals, if_pos htarget, hv]
  · rw [if_neg htarget] at hv
    exact goals_of_meaning htarget (h.known_meant hd hv)

theorem aim_unknown (hd : net.lastDigest < d)
    (hr : (net.definedAs target root w).RelatesAt r relation) :
    (net.definedAs target root w).valueAt d (net.aiming root next r) = none := by
  rw [h.defined_valueAt, if_neg (h.aim_ne_target hr)]
  rcases h.turn hr with ⟨hnone, -⟩ | ⟨-, hresult, hr'⟩
  · by_contra hknown
    obtain ⟨y, hy⟩ := Option.ne_none_iff_exists'.mp hknown
    rw [h.known_meant hd hy] at hnone
    cases hnone
  · obtain ⟨y, hy, hunset⟩ := h.forward.unset relation hr'.relates
    rw [hresult, valueAt_eq hy, hunset]
    rfl

section Reached

variable {after : Network} (hp : (net.definedAs target root w).Pursues (net.aiming root next)
    (net.goals target w wanted) d after) (hi : after.Inert d)
  (hkept : ∀ v y, (net.definedAs target root w).valueAt d v = some y →
    after.valueAt d v = some y)
include hp hi hkept

theorem meant_known {y : Float} (hm : net.Means v y) : (after.valueAt d v).isSome := by
  induction hm with
  | @pinned v z y hz hpin hy =>
    have hsome : ((net.definedAs target root w).valueAt d v).isSome := by
      rw [h.defined_valueAt]
      split
      · rfl
      · rw [valueAt_eq hz, Holding.valueAt_of_isPinned hpin, hy]
        rfl
    obtain ⟨u, hu⟩ := Option.isSome_iff_exists.mp hsome
    rw [hkept v u hu]
    rfl
  | @computed relation v known y hr he hk hm hd ih =>
    obtain ⟨r, rel, hrel, rfl⟩ := hr
    have hat : (net.definedAs target root w).RelatesAt r rel.relation :=
      relatesAt_definedAs.mpr (.inr ⟨rel, hrel, rfl⟩)
    rcases h.turn hat with ⟨hnone, hmem, -⟩ | ⟨-, hresult, -⟩
    · obtain ⟨u, hu⟩ := Option.isSome_iff_exists.mp (hk _ hmem)
      rw [h.forward.meaning_eq_some.mpr (hm _ hmem u hu)] at hnone
      cases hnone
    · rw [← he, ← hresult]
      apply hp.reaches h.plan hi hat
      intro a ha hne
      have hmem : a ∈ rel.relation.arguments :=
        (List.mem_cons.mp ha).resolve_left (hresult ▸ hne)
      obtain ⟨u, hu⟩ := Option.isSome_iff_exists.mp (hk a hmem)
      exact ih a hmem u hu

theorem route_known (hreach : Relation.ReflTransGen (net.Leads next) root v) :
    (after.valueAt d v).isSome := by
  induction hreach with
  | refl =>
    have hdefined : (net.definedAs target root w).RelatesAt ⟨net.relationships.next⟩
        (.equality target root) := relatesAt_definedAs.mpr (.inl ⟨rfl, rfl⟩)
    rw [← h.aiming_gate]
    apply hp.reaches h.plan hi hdefined
    intro a ha hne
    rw [h.aiming_gate] at hne
    obtain rfl : a = target := by
      simpa [Relation.operands, Relation.result, Relation.arguments, hne] using ha
    rw [hkept a w ((h.defined_valueAt d a).trans (if_pos rfl))]
    rfl
  | @tail a c _ hedge ih =>
    obtain ⟨r, relation, hr, hn, rfl⟩ := hedge
    obtain ⟨relation', hat, hl⟩ := h.route.link r c hn
    have hsame := hr.unique hat
    subst hsame
    have haim : net.aiming root next r = c := aiming_of_next hn
    rw [← haim]
    apply hp.reaches h.plan hi (relatesAt_definedAs.mpr (.inr hr))
    intro b hb hne
    rw [haim] at hne
    rcases List.mem_cons.mp hb with rfl | hb
    · exact ih
    · obtain ⟨y, hy⟩ := Option.isSome_iff_exists.mp ((h.link_meaning hr hl).2.2 b hb hne)
      exact h.meant_known hp hi hkept (h.forward.meaning_eq_some.mp hy)

theorem goal_known : after.valueAt d goal = some value := by
  obtain ⟨y, hy⟩ := Option.isSome_iff_exists.mp (h.route_known hp hi hkept h.route.reach)
  have hx := h.arithmetic.part_of_mem_names (mem_names_of_inverse h.arithmetic h.carried)
  have hunknown := h.meaning_eq_none hx (List.mem_singleton_self x) h.named
  rw [hy, ← hp.wanted goal y hy, goals_of_unknown h.goal_ne hunknown, h.route.finish]

end Reached

/-- Solving a fresh digest gives the unknown name what the inverse says, whatever comes of
further passes; without them the solve answers. -/
theorem solve (hr : Reachable (net.definedAs target root w)) (hd : net.lastDigest < d) :
    let outcome := (net.definedAs target root w).perform (.solve d)
    outcome.network.lookup x = some goal ∧ outcome.network.valueAt d goal = some value ∧
      (¬ net.config.fixpoint → ∃ report, outcome.result = .ok (.report report)) := by
  intro outcome
  obtain ⟨hpursues, hinert, hends⟩ := h.plan.solve hr hd
    (fun r relation hr => h.aim_unknown hd hr) (fun v y hv => h.known_wanted hd hv) rfl
  refine ⟨?_, ?_, fun hfix => hends.resolve_right fun hfault => hfix hfault.1⟩
  · unfold lookup
    rw [hpursues.graph.registry]
    exact h.named
  · apply h.goal_known hpursues hinert
    intro v y hv
    obtain ⟨mid, run', fault, hpre, hpass, he, -⟩ := solve_passes (net.definedAs target root w) d
    show ((net.definedAs target root w).perform (.solve d)).network.valueAt d v = some y
    rw [he]
    exact ((Passed.advance hpre).trans hpass.advance).known hv

end Inverted

end ConstraintNet.Network
