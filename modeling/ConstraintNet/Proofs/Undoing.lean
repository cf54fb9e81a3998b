import ConstraintNet.Proofs.Chain

/-!
# Clearing undoes a definition

A definition is a chain that its last relationship holds on to the defined variable. Without
that, the chain is left behind link by link, from its end to its beginning. What was there
before is not reached: only an intermediate is left behind while something still touches it,
and the intermediates of a chain are its own.
-/

set_option autoImplicit false

namespace ConstraintNet

namespace Network

variable {before lowered net : Network} {mentions : String → Prop} {target root v : VariableId}
  {r : RelationshipId} {name text x : String}

/-- An expression has been lowered for a variable without a definition. What it mentions is
no intermediate, save the variable itself. -/
structure Prepared (mentions : String → Prop) (target : VariableId) (before : Network)
    (root : VariableId) (lowered : Network) : Prop where
  integrity : before.Integrity
  grows : Grows before lowered
  chained : Chained mentions [root] before lowered
  target_live : (before.variableAt target).isSome
  root_live : (lowered.variableAt root).isSome
  undefined : before.definitions.find? target = none
  mentioned : ∀ x v y, mentions x → before.lookup x = some v → before.variableAt v = some y →
    v = target ∨ y.kind ≠ .intermediate

def gained (net net' : Network) : Set RelationshipId :=
  {r | net.relationshipAt r = none ∧ (net'.relationshipAt r).isSome}

theorem touches_define : (lowered.define target root).Touches r v ↔
    (r = ⟨lowered.relationships.next⟩ ∧ v ∈ [target, root]) ∨ lowered.Touches r v :=
  touches_relate

theorem definitions_define : (lowered.define target root).definitions.find? v =
    if v = target then some ⟨lowered.relationships.next⟩ else lowered.definitions.find? v :=
  Table.find?_insert _ _ _ _

section Prepared

variable (h : Prepared mentions target before root lowered)
include h

theorem Prepared.construct : Construct lowered (lowered.relate (.equality target root)).2 :=
  construct_define (h.grows.live h.target_live) h.root_live

theorem Prepared.grown : Grows before (lowered.relate (.equality target root)).2 :=
  Relation.ReflTransGen.tail h.grows h.construct

theorem Prepared.integrity_define : (lowered.define target root).Integrity := by
  have hi := (Grows.edits h.grown).integrity h.integrity
  apply (Edit.define _ target ⟨lowered.relationships.next⟩ _ _).integrity hi
  · exact Grows.live h.grown h.target_live
  · exact ⟨_, root, relationshipAt_relate _ _, rfl⟩

theorem Prepared.relationshipAt_define {rel : Relationship} (hr : before.relationshipAt r = some rel) :
    (lowered.define target root).relationshipAt r = some rel :=
  (Grows.appends h.grown).kept r rel hr

theorem Prepared.gained_of_touches (ht : (lowered.define target root).Touches r v)
    (hv : ¬ before.Touches r v) : r ∈ before.gained (lowered.define target root) := by
  obtain ⟨rel, hrel, hmem⟩ := ht
  constructor
  · cases hold : before.relationshipAt r with
    | none => rfl
    | some rel' =>
      rw [h.relationshipAt_define hold] at hrel
      cases hrel
      exact absurd ⟨rel, hold, hmem⟩ hv
  · rw [hrel]
    rfl

theorem Prepared.gained_of_absent (hv : before.variableAt v = none)
    (ht : (lowered.define target root).Touches r v) :
    r ∈ before.gained (lowered.define target root) := by
  apply h.gained_of_touches ht
  intro hold
  have hlive := h.integrity.operand_live r v hold
  rw [hv] at hlive
  cases hlive

theorem Prepared.touched (hr : before.relationshipAt r = none)
    (ht : (lowered.define target root).Touches r v) : v = target ∨ before.Source mentions v := by
  rcases touches_define.mp ht with ⟨-, hv⟩ | hold
  · rcases List.mem_cons.mp hv with he | hv
    · exact .inl he
    · exact .inr (h.chained.answered v hv)
  · exact .inr (h.chained.touched r v hr hold)

theorem Prepared.produces {rel : Relationship} (hn : before.relationshipAt r = none)
    (hr : lowered.relationshipAt r = some rel) :
    before.Produces (lowered.define target root) [] r rel.relation.result := by
  have hlt := index_lt_of_relationshipAt hr
  have hp := ((h.chained.produces r rel hn hr).grows hlt (.single h.construct))
  have huse : ∀ a ∈ [root], ∃ s, (lowered.define target root).Touches s a ∧ r.index < s.index := by
    intro a ha
    exact ⟨_, touches_define.mpr (.inl ⟨rfl, List.mem_cons_of_mem _ ha⟩), hlt⟩
  have hused : before.Produces (lowered.relate (.equality target root)).2 [] r
      rel.relation.result := hp.use huse
  exact ⟨hused.absent, hused.made, hused.first, hused.used⟩

/-- The new relationships, with the variables that only they touch, are a closed pair. -/
theorem Prepared.closed : (lowered.define target root).Closed {target}
    {v | ∀ r, ¬ before.Touches r v} (before.gained (lowered.define target root)) := by
  have hi := h.integrity_define
  constructor
  · intro v hv x hx r hr
    exact h.gained_of_touches ((hi.attached v x hx r).mp hr) (hv r)
  · intro r hr v ht hspared horphaned s hs
    obtain ⟨x, hx, hloose | ⟨hunused, -⟩⟩ := horphaned
    · -- An old relationship is not among the new ones.
      have hattached := (hi.attached v x hx s).mpr ((Grows.appends h.grown).touches hs)
      obtain ⟨rel, hrel, -⟩ := hs
      rw [(hloose.1 s hattached).1] at hrel
      cases hrel
    · -- An intermediate that was there is touched by nothing new.
      have hlive := h.integrity.operand_live s v hs
      obtain ⟨y, hy⟩ := Option.isSome_iff_exists.mp hlive
      obtain ⟨x', hx', he⟩ := (Grows.kept h.grown) hy
      have hsame : some x' = some x := hx'.symm.trans hx
      cases hsame
      have hkind : y.kind = .intermediate := by
        rw [he] at hunused
        exact hunused.1
      rcases (h.touched hr.1 ht).resolve_left hspared with hnew | ⟨z, hz, hname⟩
      · rw [hnew] at hy
        cases hy
      · exact (h.mentioned z v y hz hname hy).elim hspared fun hk => hk hkind

variable {T : Set VariableId} {R : Set RelationshipId}

/-- What produces goes as soon as all that uses its product is gone. -/
theorem Prepared.lost_of_later {rel : Relationship} {s : RelationshipId}
    (hclosed : (lowered.define target root).Closed {target} T R)
    (hrel : (lowered.define target root).relationshipAt r = some rel)
    (hp : before.Produces (lowered.define target root) [] r rel.relation.result)
    (hlater : ∀ s, (lowered.define target root).Touches s rel.relation.result → s ≠ r → s ∈ R)
    (hs : (lowered.define target root).Touches s rel.relation.result) (hlt : r.index < s.index) :
    r ∈ R := by
  by_contra hkept
  have hi := h.integrity_define
  obtain ⟨x, hx, hkind, hunset⟩ := hp.made
  have hproduced : (lowered.define target root).Touches r rel.relation.result :=
    ⟨rel, hrel, List.mem_cons_self⟩
  have hattached := (hi.attached _ x hx r).mpr hproduced
  have horphaned : (lowered.define target root).Orphaned R rel.relation.result := by
    refine ⟨x, hx, .inr ⟨⟨hkind, by simp [hunset, Holding.isPinned]⟩, r, rel, hattached, hkept,
      fun t ht hout => ?_, hrel, rfl⟩⟩
    by_contra hne
    exact hout (hlater t ((hi.attached _ x hx t).mp ht) hne)
  have htarget : rel.relation.result ∉ ({target} : Set VariableId) := by
    intro he
    have hlive := h.target_live
    rw [← Set.mem_singleton_iff.mp he, hp.absent] at hlive
    cases hlive
  have hne : s ≠ r := fun he => hlt.ne (by rw [he])
  have hlost := hclosed.orphans s (hlater s hs hne) _ hs htarget horphaned
  exact hkept (hclosed.attached _ hlost x hx r hattached)

/-- A closed pair with the relationship that defines has all the chain in it, which is taken
up from its end. -/
theorem Prepared.gained_subset (hclosed : (lowered.define target root).Closed {target} T R)
    (hcut : (⟨lowered.relationships.next⟩ : RelationshipId) ∈ R) :
    before.gained (lowered.define target root) ⊆ R := by
  intro r hr
  -- By induction on how far a relationship is from the last one.
  induction hk : lowered.relationships.next - r.index using Nat.strong_induction_on generalizing r
    with
  | _ k ih =>
    subst hk
    by_cases hlast : r = ⟨lowered.relationships.next⟩
    · exact hlast ▸ hcut
    · obtain ⟨rel, hrel⟩ := Option.isSome_iff_exists.mp hr.2
      have hlowered : lowered.relationshipAt r = some rel := by
        have hrel' : (lowered.relate (.equality target root)).2.relationshipAt r = some rel := hrel
        rwa [relationshipAt_relate_eq, if_neg hlast] at hrel'
      have hlt := index_lt_of_relationshipAt hlowered
      have hp := h.produces hr.1 hlowered
      have hlater : ∀ s, (lowered.define target root).Touches s rel.relation.result → s ≠ r →
          s ∈ R := by
        intro s hs hne
        have hlt' : r.index < s.index :=
          lt_of_le_of_ne (hp.first s hs) fun he => hne (RelationshipId.index_inj.mp he).symm
        exact ih _ (Nat.sub_lt_sub_left hlt hlt') (h.gained_of_absent hp.absent hs) rfl
      obtain ⟨s, hs, hlt'⟩ := hp.used.resolve_left List.not_mem_nil
      exact h.lost_of_later hclosed hrel hp hlater hs hlt'

theorem Prepared.collects : (lowered.define target root).Collects ∅
    {⟨lowered.relationships.next⟩} {target} ((lowered.define target root).undefine target) := by
  have hc := collects_undefine h.integrity_define target
  have hcut : {r | (lowered.define target root).definitions.find? target = some r} =
      {⟨lowered.relationships.next⟩} := by
    ext r
    show (lowered.define target root).definitions.find? target = some r ↔ _
    rw [definitions_define, if_pos rfl, Set.mem_singleton_iff, Option.some.injEq, eq_comm]
  rwa [hcut] at hc

theorem Prepared.cut_subset : {⟨lowered.relationships.next⟩} ⊆
    before.gained (lowered.define target root) := by
  rintro _ rfl
  constructor
  · cases hold : before.relationshipAt ⟨lowered.relationships.next⟩ with
    | none => rfl
    | some rel =>
      have hkept := (Grows.appends h.grows).kept _ rel hold
      rw [relationshipAt_next] at hkept
      cases hkept
  · exact Option.isSome_iff_exists.mpr ⟨_, relationshipAt_relate (.equality target root) lowered⟩

theorem Prepared.lost :
    (lowered.define target root).lostRelationships ((lowered.define target root).undefine target) =
      before.gained (lowered.define target root) := by
  have hclosure := h.collects.closure
  apply Set.Subset.antisymm
  · exact (hclosure.least _ _ (Set.empty_subset _) h.cut_subset h.closed).2
  · exact h.gained_subset hclosure.closed (hclosure.cuts rfl)

theorem Prepared.target_kept : target ∉ (lowered.define target root).lostVariables
    ((lowered.define target root).undefine target) := by
  intro hlost
  exact (h.collects.closure.orphaned hlost (Set.notMem_empty target)).1 rfl

theorem Prepared.relationshipAt_undefine (r : RelationshipId) :
    ((lowered.define target root).undefine target).relationshipAt r = before.relationshipAt r := by
  have hres := h.collects.residue
  cases hold : before.relationshipAt r with
  | some rel =>
    have hrel := h.relationshipAt_define hold
    have hkept : r ∉ (lowered.define target root).lostRelationships
        ((lowered.define target root).undefine target) := by
      rw [h.lost]
      intro hr
      rw [hr.1] at hold
      cases hold
    rw [not_mem_lostRelationships (by rw [hrel]; rfl)] at hkept
    obtain ⟨rel', hrel'⟩ := Option.isSome_iff_exists.mp hkept
    rw [hres.old_relationships r rel' hrel'] at hrel
    cases hrel
    exact hrel'
  | none =>
    cases hrel : ((lowered.define target root).undefine target).relationshipAt r with
    | none => rfl
    | some rel =>
      have hlive : ((lowered.define target root).relationshipAt r).isSome := by
        rw [hres.old_relationships r rel hrel]
        rfl
      have hlost : r ∈ (lowered.define target root).lostRelationships
          ((lowered.define target root).undefine target) := by
        rw [h.lost]
        exact ⟨hold, hlive⟩
      rw [hlost.2] at hrel
      cases hrel

theorem Prepared.order_undefine :
    ((lowered.define target root).undefine target).order = before.order := by
  rw [h.collects.residue.order, h.lost]
  symm
  apply eq_outside h.integrity.order_sorted h.integrity_define.order_sorted
  intro r
  rw [h.integrity.mem_order, h.integrity_define.mem_order]
  constructor
  · intro hr
    obtain ⟨rel, hrel⟩ := Option.isSome_iff_exists.mp hr
    refine ⟨by rw [h.relationshipAt_define hrel]; rfl, fun hnew => ?_⟩
    rw [hnew.1] at hr
    cases hr
  · intro ⟨hr, hold⟩
    by_contra hn
    exact hold ⟨Option.not_isSome_iff_eq_none.mp hn, hr⟩

theorem Prepared.definitions_undefine (v : VariableId) :
    ((lowered.define target root).undefine target).definitions.find? v =
      before.definitions.find? v := by
  have hc := h.collects
  apply Option.ext
  intro r
  rw [hc.residue.definitions, h.lost, definitions_define]
  by_cases hv : v = target
  · subst hv
    rw [if_pos rfl, h.undefined]
    constructor
    · rintro ⟨hr, -, hkept⟩
      cases hr
      exact absurd (h.cut_subset rfl) hkept
    · intro hr
      cases hr
  · rw [if_neg hv, Grows.definitions h.grows]
    refine ⟨And.left, fun hd => ?_⟩
    obtain ⟨-, rel, right, hr, heq⟩ := h.integrity.defined v r hd
    have ht : before.Touches r v := ⟨rel, hr, by rw [heq]; exact List.mem_cons_self⟩
    refine ⟨hd, fun hlost => ?_, fun hnew => ?_⟩
    · exact (hc.closure.least _ _ (Set.empty_subset _) h.cut_subset h.closed).1 hlost r ht
    · rw [hnew.1] at hr
      cases hr

theorem Prepared.live_undefine
    (hv : (((lowered.define target root).undefine target).variableAt v).isSome) :
    (before.variableAt v).isSome := by
  have hc := h.collects
  have hi := h.integrity_define
  by_contra hn
  replace hn := Option.not_isSome_iff_eq_none.mp hn
  obtain ⟨y, hy⟩ := Option.isSome_iff_exists.mp hv
  obtain ⟨x, hx, -⟩ := hc.residue.old_variables v y hy
  have hnew : x.Newborn := by
    rcases (Grows.variable h.grown) hx with ⟨w, hw, -⟩ | ⟨-, hnew⟩
    · rw [hn] at hw
      cases hw
    · exact hnew
  obtain ⟨r, hr⟩ : ∃ r, (lowered.define target root).Touches r v := by
    have hlive : (lowered.variableAt v).isSome := by
      rw [← isSome_variableAt_relate (.equality target root)]
      exact Option.isSome_iff_exists.mpr ⟨x, hx⟩
    rcases h.chained.consumed v hn hlive with ha | ⟨r, hr⟩
    · exact ⟨_, touches_define.mpr (.inl ⟨rfl, List.mem_cons_of_mem _ ha⟩)⟩
    · exact ⟨r, touches_define.mpr (.inr hr)⟩
  have hlost {s : RelationshipId} (hs : (lowered.define target root).Touches s v) :
      s ∈ (lowered.define target root).lostRelationships
        ((lowered.define target root).undefine target) := by
    rw [h.lost]
    exact h.gained_of_absent hn hs
  have hloose : x.kind = .constant ∨ ¬ x.holding.isPinned := by
    by_cases hk : x.kind = .constant
    · exact .inl hk
    · rw [hnew.unset hk]
      exact .inr Bool.false_ne_true
  have htarget : v ∉ ({target} : Set VariableId) := by
    rintro rfl
    have hlive := h.target_live
    rw [hn] at hlive
    cases hlive
  have hgone := hc.closure.closed.orphans r (hlost hr) v hr htarget
    ⟨x, hx, .inl ⟨fun s hs => hlost ((hi.attached v x hx s).mp hs), hloose⟩⟩
  rw [hgone.2] at hy
  cases hy

end Prepared

theorem undefined_clear (hi : net.Integrity) (hv : (net.clear name).lookup name = some v) :
    (net.clear name).definitions.find? v = none := by
  cases hname : net.lookup name with
  | none =>
    simp only [clear, hname] at hv
    cases hv
  | some w =>
    simp only [clear, hname] at hv ⊢
    have hc := collects_undefine hi w
    obtain ⟨hold, -⟩ := (hc.residue.names name v).mp hv
    rw [hname] at hold
    cases hold
    apply Option.eq_none_iff_forall_ne_some.mpr
    intro r hr
    obtain ⟨hd, -, hkept⟩ := (hc.residue.definitions v r).mp hr
    exact hkept (hc.closure.cuts hd)

theorem undefined_declare (hi : net.Integrity)
    (hv : ∀ v, net.lookup name = some v → net.definitions.find? v = none) :
    (net.declare name).2.definitions.find? (net.declare name).1 = none := by
  cases hname : net.lookup name with
  | some v =>
    simp only [declare, hname]
    exact hv v hname
  | none =>
    simp only [declare, hname]
    apply Option.eq_none_iff_forall_ne_some.mpr
    intro r hr
    have hlive := (hi.defined _ r hr).1
    have hnew : net.variableAt (net.addNamed (.blank name .named)).1 = none := net.variableAt_next
    rw [hnew] at hlive
    cases hlive

theorem kept_by_clear (hi : net.Integrity) (hne : x ≠ name)
    (hx : (net.clear name).lookup x = some v) :
    net.lookup x = some v ∧ net.Keeps (net.clear name) x v := by
  obtain ⟨mid, hc, hlookup, -⟩ := exists_collects_clear hi name
  obtain ⟨hold, -⟩ := (hc.residue.names x v).mp ((hlookup x).symm.trans hx)
  obtain ⟨T, R, -, hkeeps⟩ := clear_keeps hi name
  obtain ⟨hkept, hlost⟩ := hkeeps x v hne hold
  refine ⟨hold, hkept fun hv => ?_⟩
  rw [(hlost hv).1] at hx
  cases hx

theorem prepared_definition (hi : net.Integrity) {e : Expr}
    (hrun : (Build.lower e).run ((net.clear name).declare name).2 = .ok root lowered)
    (hnames : ∀ x v y, (Expr.ident x).Part e → net.lookup x = some v → net.variableAt v = some y →
      y.kind ≠ .intermediate) :
    Prepared (fun x => (Expr.ident x).Part e) ((net.clear name).declare name).1
      ((net.clear name).declare name).2 root lowered := by
  have hcleared := Edits.integrity (edits_clear hi name) hi
  have hdeclare := grows_declare name (net.clear name)
  have hbefore := hdeclare.edits.integrity hcleared
  obtain ⟨hg, hchained, hroot⟩ := (chains_lower hbefore e).of_run hrun
  refine ⟨hbefore, hg, hchained, live_declare hcleared name, hroot,
    undefined_declare hcleared fun v => undefined_clear hi, fun x v y hx hv hy => ?_⟩
  by_cases hne : x = name
  · subst hne
    rw [lookup_declare] at hv
    exact .inl (Option.some.inj hv).symm
  · rw [lookup_declare_of_ne hne] at hv
    obtain ⟨hold, hkeeps⟩ := kept_by_clear hi hne hv
    obtain ⟨-, w, y', hw, hy', he⟩ := hkeeps.grows hdeclare
    rw [hy] at hy'
    cases hy'
    have hk := hnames x v w hx hold hw
    rw [he]
    exact .inr hk

/-- Defining a variable and clearing it leaves the relationships, with their operands, their
order and their markers, and the definitions that clearing it alone leaves: the chain made for
the text is gone, whatever its shape, and nothing older. No variable is there that would not
be there otherwise, save the one defined. The text must not mention an intermediate that was
there before: such a one would go with the chain that uses it. -/
theorem clearing_undoes_definition (hr : Reachable net)
    (hdone : (net.perform (.set name (.expression text))).result = .ok .done)
    (hnames : ∀ e x v y, Expr.parse text = .ok e → (Expr.ident x).Part e →
      net.lookup x = some v → net.variableAt v = some y → y.kind ≠ .intermediate) :
    (∀ r, (net.after [.set name (.expression text), .clear name]).relationshipAt r =
      (net.after [.clear name]).relationshipAt r) ∧
    (net.after [.set name (.expression text), .clear name]).order =
      (net.after [.clear name]).order ∧
    (∀ v, (net.after [.set name (.expression text), .clear name]).definitions.find? v =
      (net.after [.clear name]).definitions.find? v) ∧
    ∀ v, ((net.after [.set name (.expression text), .clear name]).variableAt v).isSome →
      ((net.after [.clear name]).variableAt v).isSome ∨
        (net.after [.set name (.expression text), .clear name]).lookup name = some v := by
  have hi := hr.integrity
  obtain ⟨e, root, lowered, hparse, hrun, hafter⟩ := perform_definition hi hdone
  have h := prepared_definition hi hrun fun x v y => hnames e x v y hparse
  have hname : (lowered.define ((net.clear name).declare name).1 root).lookup name =
      some ((net.clear name).declare name).1 :=
    (Grows.extends h.grown).lookup name _ (lookup_declare name _)
  have hundone : net.after [.set name (.expression text), .clear name] =
      (lowered.define ((net.clear name).declare name).1 root).clear name := by
    rw [← hafter]
    rfl
  rw [hundone, clear, hname]
  have hrest := declare_rest name (net.clear name)
  refine ⟨fun r => ?_, ?_, fun v => ?_, fun v hv => ?_⟩
  · exact (h.relationshipAt_undefine r).trans (by rw [hrest]; rfl)
  · exact h.order_undefine.trans (by rw [hrest]; rfl)
  · exact (h.definitions_undefine v).trans (by rw [hrest]; rfl)
  · rw [variableAt_updateVariable] at hv
    have hlive : (((net.clear name).declare name).2.variableAt v).isSome := by
      apply h.live_undefine
      split at hv
      · rwa [Option.isSome_map] at hv
      · exact hv
    cases hold : (net.clear name).variableAt v with
    | some x =>
      show ((net.clear name).variableAt v).isSome ∨ _
      rw [hold]
      exact .inl rfl
    | none =>
      rw [eq_of_new_declare hold hlive]
      exact .inr ((h.collects.residue.names name _).mpr ⟨hname, h.target_kept⟩)

def definedSum : Network :=
  (empty .standard).after [.set "V" (.expression "a + b"), .set "W" (.expression "V")]

theorem clearing_undoes_definition_sharedOperands :
    Reachable definedSum ∧
      (definedSum.perform (.set "W" (.expression "a * W + a"))).result = .ok .done ∧
      (definedSum.perform (.set "W" (.expression "a * W + a"))).network.order.length = 5 ∧
      (definedSum.after [.set "W" (.expression "a * W + a"), .clear "W"]).order.length = 2 ∧
      ∀ r, (definedSum.after [.set "W" (.expression "a * W + a"), .clear "W"]).relationshipAt r =
        (definedSum.after [.clear "W"]).relationshipAt r := by
  have hr : Reachable definedSum := ⟨.standard, empty .standard, _, create_standard, rfl⟩
  have hdone : (definedSum.perform (.set "W" (.expression "a * W + a"))).result = .ok .done := rfl
  have hparse : Expr.parse "a * W + a" =
      .ok (.op "+" (.op "*" (.ident "a") (.ident "W")) (.ident "a")) := rfl
  have hnames : ∀ e x v y, Expr.parse "a * W + a" = .ok e → (Expr.ident x).Part e →
      definedSum.lookup x = some v → definedSum.variableAt v = some y → y.kind ≠ .intermediate := by
    intro e x v y he hpart hx hy
    rw [hparse] at he
    cases he
    have hname : x = "a" ∨ x = "W" := by
      rcases hpart with _ | (_ | h | h) | h
      · cases h
        exact .inl rfl
      · cases h
        exact .inr rfl
      · cases h
        exact .inl rfl
    rcases hname with rfl | rfl
    · cases hx
      cases hy
      decide
    · cases hx
      cases hy
      decide
  obtain ⟨hrelationships, horder, -⟩ := clearing_undoes_definition hr hdone hnames
  exact ⟨hr, hdone, rfl, by rw [horder]; rfl, hrelationships⟩

end Network

end ConstraintNet
