import ConstraintNet.Proofs.Reachable
import ConstraintNet.Proofs.Residue

/-!
# Teardown collects the least orphan closure

Which variables a destruction takes along is said here without the order in which they
are met: as the least pair of a set of variables and a set of relationships that is
closed under what it means to be left behind. The teardown removes exactly that pair.
-/

set_option autoImplicit false

namespace ConstraintNet

namespace Network

variable {net net' : Network} {v : VariableId} {r : RelationshipId}
  {T T' : Set VariableId} {R R' : Set RelationshipId}

/-- Once the relationships of a set are gone, a variable has none and no value is pinned
in it, where a constant's own value does not count; or it is an intermediate without a
pinned value, and what it has left is the one relationship that produces it. -/
def Orphaned (net : Network) (R : Set RelationshipId) (v : VariableId) : Prop :=
  ∃ x, net.variableAt v = some x ∧
    ((∀ r ∈ x.relationships, r ∈ R) ∧ (x.kind = .constant ∨ ¬ x.holding.isPinned) ∨
      (x.kind = .intermediate ∧ ¬ x.holding.isPinned) ∧ ∃ r rel,
        r ∈ x.relationships ∧ r ∉ R ∧ (∀ s ∈ x.relationships, s ∉ R → s = r) ∧
        net.relationshipAt r = some rel ∧ rel.relation.result = v)

theorem Orphaned.mono (h : net.Orphaned R v) (hR : R ⊆ R') : net.Orphaned R' v := by
  obtain ⟨x, hx, hloose | ⟨hunpinned, r, rel, hr, hout, honly, hrel, hresult⟩⟩ := h
  · exact ⟨x, hx, .inl ⟨fun r hr => hR (hloose.1 r hr), hloose.2⟩⟩
  · -- once the relationship that produces it goes as well, it has none
    by_cases hin : r ∈ R'
    · refine ⟨x, hx, .inl ⟨fun s hs => ?_, .inr hunpinned.2⟩⟩
      by_cases hs' : s ∈ R
      · exact hR hs'
      · rw [honly s hs hs']
        exact hin
    · exact ⟨x, hx, .inr ⟨hunpinned, r, rel, hr, hin,
        fun s hs hs' => honly s hs fun h => hs' (hR h), hrel, hresult⟩⟩

theorem eq_singleton_iff {rs : List RelationshipId}
    (hn : rs.Pairwise fun r s => r.index < s.index) :
    rs = [r] ↔ r ∈ rs ∧ ∀ s ∈ rs, s = r := by
  constructor
  · rintro rfl
    simp
  · intro ⟨hr, honly⟩
    cases rs with
    | nil => cases hr
    | cons s rs =>
      cases rs with
      | nil => rw [honly s List.mem_cons_self]
      | cons s' rs =>
        have hlt := (List.pairwise_cons.mp hn).1 s' List.mem_cons_self
        rw [honly s List.mem_cons_self, honly s' (by simp)] at hlt
        exact absurd hlt (Nat.lt_irrefl _)

theorem isOrphan_iff {x : Variable} (hx : net.variableAt v = some x) :
    net.isOrphan v ↔ x.relationships = [] ∧ (x.kind = .constant ∨ ¬ x.holding.isPinned) ∨
      (x.kind = .intermediate ∧ ¬ x.holding.isPinned) ∧ ∃ r rel, x.relationships = [r] ∧
        net.relationshipAt r = some rel ∧ rel.relation.result = v := by
  have hunused : net.isUnused v x ↔ (x.kind = .intermediate ∧ ¬ x.holding.isPinned) ∧
      ∃ r rel, x.relationships = [r] ∧ net.relationshipAt r = some rel ∧
        rel.relation.result = v := by
    unfold isUnused
    split
    · rename_i only hk hone
      cases hrel : net.relationshipAt only <;> simp [hk, hone, hrel]
    · rename_i hno
      simp only [Bool.false_eq_true, false_iff]
      intro ⟨⟨hk, _⟩, r, _, hone, _⟩
      exact hno r hk hone
  simp only [isOrphan, hx, Option.any_some, Bool.or_eq_true, hunused]
  simp [Variable.isLoose, Variable.isConstant]

theorem Shrinks.isOrphan_iff (h : Shrinks net net') (hi : net.Integrity)
    (hv : (net'.variableAt v).isSome) :
    net'.isOrphan v ↔ net.Orphaned (net.lostRelationships net') v := by
  obtain ⟨y, hy⟩ := Option.isSome_iff_exists.mp hv
  obtain ⟨x, hx, he⟩ := h.left_variable hi hy
  have hmem (r : RelationshipId) := h.mem_relationships (r := r) hi hx hy
  have hsorted := (h.edits.integrity hi).attached_sorted v y hy
  have hkind : y.kind = x.kind := by rw [he]; rfl
  have hholding : y.holding = x.holding := by rw [he]; rfl
  have hnone : y.relationships = [] ↔
      ∀ r ∈ x.relationships, r ∈ net.lostRelationships net' := by
    simp only [List.eq_nil_iff_forall_not_mem, hmem, not_and, not_not]
  have hone (r : RelationshipId) (rel : Relationship) :
      (y.relationships = [r] ∧ net'.relationshipAt r = some rel ∧ rel.relation.result = v) ↔
        r ∈ x.relationships ∧ r ∉ net.lostRelationships net' ∧
          (∀ s ∈ x.relationships, s ∉ net.lostRelationships net' → s = r) ∧
          net.relationshipAt r = some rel ∧ rel.relation.result = v := by
    rw [eq_singleton_iff hsorted]
    simp only [hmem, and_imp]
    constructor
    · intro ⟨⟨hr, honly⟩, hrel, hresult⟩
      exact ⟨hr.1, hr.2, honly, h.relationship hrel, hresult⟩
    · intro ⟨hr, hkept, honly, hrel, hresult⟩
      refine ⟨⟨⟨hr, hkept⟩, honly⟩, ?_, hresult⟩
      rw [not_mem_lostRelationships (by rw [hrel]; rfl)] at hkept
      obtain ⟨rel', hrel'⟩ := Option.isSome_iff_exists.mp hkept
      have hsame := h.relationship hrel'
      rw [hrel] at hsame
      rw [hrel', hsame]
  rw [Network.isOrphan_iff hy, hnone, hkind, hholding]
  simp only [hone, Orphaned, hx, Option.some.injEq, exists_eq_left']

/-- A pair with the relationships of every variable in it and with every orphan that
they leave, spared ones excepted. -/
structure Closed (net : Network) (spared : Set VariableId) (T : Set VariableId)
    (R : Set RelationshipId) : Prop where
  attached : ∀ v ∈ T, ∀ x, net.variableAt v = some x → ∀ r ∈ x.relationships, r ∈ R
  orphans : ∀ r ∈ R, ∀ v, net.Touches r v → v ∉ spared → net.Orphaned R v → v ∈ T

/-- The least closed pair with some variables and some relationships in it. -/
structure OrphanClosure (net : Network) (start : Set VariableId) (cut : Set RelationshipId)
    (spared : Set VariableId) (T : Set VariableId) (R : Set RelationshipId) : Prop where
  starts : start ⊆ T
  cuts : cut ⊆ R
  closed : net.Closed spared T R
  least : ∀ T' R', start ⊆ T' → cut ⊆ R' → net.Closed spared T' R' → T ⊆ T' ∧ R ⊆ R'

def Linked (net : Network) (v w : VariableId) : Prop := ∃ r, net.Touches r v ∧ net.Touches r w

abbrev Connected (net : Network) := Relation.ReflTransGen net.Linked

theorem OrphanClosure.connected {spared : Set VariableId} (hi : net.Integrity)
    (h : net.OrphanClosure {v} ∅ spared T R) :
    (∀ w ∈ T, net.Connected v w) ∧ ∀ r ∈ R, ∃ w, net.Touches r w ∧ net.Connected v w := by
  apply h.least {w | net.Connected v w} {r | ∃ w, net.Touches r w ∧ net.Connected v w}
  · rintro w rfl
    exact .refl
  · exact Set.empty_subset _
  · constructor
    · intro w hw x hx r hr
      exact ⟨w, (hi.attached w x hx r).mp hr, hw⟩
    · intro r ⟨u, hu, hconnected⟩ w hw _ _
      exact hconnected.tail ⟨r, hu, hw⟩

/-- A variable in the closure is where the removal starts, or an orphan that is not
spared: without it the pair would still be closed. -/
theorem OrphanClosure.orphaned {start spared : Set VariableId} {cut : Set RelationshipId}
    (h : net.OrphanClosure start cut spared T R) (hv : v ∈ T) (hs : v ∉ start) :
    v ∉ spared ∧ net.Orphaned R v := by
  by_contra hno
  have hclosed : net.Closed spared {w | w ∈ T ∧ w ≠ v} R := by
    constructor
    · intro w hw
      exact h.closed.attached w hw.1
    · intro r hr w hw hspared horphaned
      refine ⟨h.closed.orphans r hr w hw hspared horphaned, ?_⟩
      rintro rfl
      exact hno ⟨hspared, horphaned⟩
  have hstart : start ⊆ {w | w ∈ T ∧ w ≠ v} := fun w hw =>
    ⟨h.starts hw, fun he => hs (he ▸ hw)⟩
  exact ((h.least _ _ hstart h.cuts hclosed).1 hv).2 rfl

theorem Orphaned.not_pinned {x : Variable} (h : net.Orphaned R v)
    (hx : net.variableAt v = some x) : x.kind = .constant ∨ ¬ x.holding.isPinned := by
  obtain ⟨x', hx', h⟩ := h
  rw [hx] at hx'
  cases hx'
  rcases h with hloose | hunused
  · exact hloose.2
  · exact .inr hunused.1.2

theorem OrphanClosure.spares {start spared : Set VariableId} {cut : Set RelationshipId}
    (h : net.OrphanClosure start cut spared T R) (hs : v ∉ start) {y : Variable}
    (hy : net.variableAt v = some y) (hk : y.kind ≠ .constant)
    (hkeep : y.holding.isPinned ∨ y.kind = .named ∧ ∃ r ∈ y.relationships, r ∉ R) : v ∉ T := by
  intro hv
  obtain ⟨-, horphaned⟩ := h.orphaned hv hs
  rcases hkeep with hpin | ⟨hnamed, r, hr, hout⟩
  · exact (horphaned.not_pinned hy).elim hk (· hpin)
  · obtain ⟨y', hy', h⟩ := horphaned
    rw [hy] at hy'
    cases hy'
    rcases h with hloose | hunused
    · exact hout (hloose.1 r hr)
    · rw [hnamed] at hunused
      cases hunused.1.1

end Network

open Network

namespace Teardown

variable {net : Network} {w : Work} {t t' : Teardown} {v : VariableId} {r : RelationshipId}
  {T : Set VariableId} {R : Set RelationshipId}

def Work.Within (net : Network) (T : Set VariableId) (R : Set RelationshipId) : Work → Prop
  | .destroy v => v ∈ T
  | .release rs => ∀ r ∈ rs, r ∈ R
  | .collect vs => ∀ v ∈ vs, ∃ r ∈ R, net.Touches r v

def GoneWithin (net : Network) (T : Set VariableId) (R : Set RelationshipId) (t : Teardown) :
    Prop :=
  net.lostVariables t.network ⊆ T ∧ net.lostRelationships t.network ⊆ R

theorem GoneWithin.remove (h : GoneWithin net T R t) {rel : Relationship} {net' : Network}
    (hr : t.network.removeRelationship r = some (rel, net')) (hin : r ∈ R) :
    GoneWithin net T R { t with network := net' } := by
  constructor
  · intro v ⟨hv, hgone⟩
    apply h.1
    refine ⟨hv, ?_⟩
    rw [← Option.not_isSome_iff_eq_none] at hgone ⊢
    rwa [isSome_variableAt_removeRelationship hr] at hgone
  · intro s ⟨hs, hgone⟩
    replace hgone : net'.relationshipAt s = none := hgone
    rw [relationshipAt_removeRelationship hr] at hgone
    split at hgone
    · rename_i hrs
      exact hrs ▸ hin
    · exact h.2 ⟨hs, hgone⟩

theorem GoneWithin.drop (h : GoneWithin net T R t) (hin : v ∈ T) :
    GoneWithin net T R { t with network := t.network.dropVariable v } := by
  constructor
  · intro w ⟨hw, hgone⟩
    replace hgone : (t.network.dropVariable v).variableAt w = none := hgone
    rw [variableAt_dropVariable] at hgone
    split at hgone
    · rename_i hvw
      exact hvw ▸ hin
    · exact h.1 ⟨hw, hgone⟩
  · intro s ⟨hs, hgone⟩
    replace hgone : (t.network.dropVariable v).relationshipAt s = none := hgone
    rw [relationshipAt_dropVariable] at hgone
    exact h.2 ⟨hs, hgone⟩

theorem Razes.goneWithin {spared : Set VariableId} (h : Razes w t t') (hi : net.Integrity)
    (hc : net.Closed spared T R) (hs : Shrinks net t.network)
    (hspared : ∀ v ∈ spared, v ∈ t.doomed) (hw : w.Within net T R)
    (hgone : GoneWithin net T R t) : GoneWithin net T R t' := by
  induction h with
  | @destroys t t' v x hd hx h ih =>
    have hrelease : ∀ r ∈ x.relationships, r ∈ R := by
      intro r hr
      obtain ⟨x', hx', -⟩ := hs.old_variable hx
      exact hc.attached v hw x' hx' r ((hs.mem_relationships hi hx' hx).mp hr).1
    exact (ih hs (fun v hv => List.mem_cons_of_mem _ (hspared v hv)) hrelease hgone).drop hw
  | released | collected => exact hgone
  | passes hr h ih =>
    exact ih hs hspared (fun s hs' => hw s (List.mem_cons_of_mem _ hs')) hgone
  | @removes t mid t' r rs rel net' hr h h' ih ih' =>
    have hin := hw r List.mem_cons_self
    have hold := hs.relationship (relationshipAt_of_removeRelationship hr)
    have hs' : Shrinks net net' := hs.tail (.remove hr)
    have hmid := ih hs' hspared (fun v hv => ⟨r, hin, rel, hold, hv⟩) (hgone.remove hr hin)
    exact ih' (hs'.trans (h.shrinks (hs'.edits.integrity hi)))
      (fun v hv => h.doomed (hspared v hv)) (fun s hs => hw s (List.mem_cons_of_mem _ hs)) hmid
  | spares _ _ ih => exact ih hs hspared (fun v hv => hw v (List.mem_cons_of_mem _ hv)) hgone
  | @collects t mid t' v vs hd ho h h' ih ih' =>
    obtain ⟨r, hr, ht⟩ := hw v List.mem_cons_self
    have horphaned := (hs.isOrphan_iff hi (isSome_of_isOrphan ho)).mp ho
    have hv := hc.orphans r hr v ht (fun hmem => hd (hspared v hmem)) (horphaned.mono hgone.2)
    exact ih' (hs.trans (h.shrinks (hs.edits.integrity hi))) (fun v hv => h.doomed (hspared v hv))
      (fun u hu => hw u (List.mem_cons_of_mem _ hu)) (ih hs hspared hv hgone)

theorem isOrphan_removeRelationship {net net' : Network} {rel : Relationship}
    (hi : net.Integrity) (hr : net.removeRelationship r = some (rel, net'))
    (hv : v ∉ rel.relation.operands) : net'.isOrphan v = net.isOrphan v := by
  have hx : net'.variableAt v = net.variableAt v := by
    rw [variableAt_removeRelationship hr, if_neg hv]
  unfold isOrphan
  rw [hx]
  cases hy : net.variableAt v with
  | none => rfl
  | some x =>
    simp only [Option.any_some]
    congr 1
    unfold isUnused
    split
    · rename_i only hk hone
      -- The relationship that is left is not the one removed, which does not touch the variable.
      have hne : r ≠ only := by
        rintro rfl
        have ht := (hi.attached v x hy r).mp (by simp [hone])
        exact hv ((touches_iff_mem (relationshipAt_of_removeRelationship hr)).mp ht)
      rw [relationshipAt_removeRelationship hr, if_neg hne]
    · rfl

theorem isOrphan_dropVariable {net : Network} {u : VariableId} (hv : u ≠ v) :
    (net.dropVariable u).isOrphan v = net.isOrphan v := by
  unfold isOrphan isUnused
  simp only [variableAt_dropVariable, if_neg hv, relationshipAt_dropVariable]

/-- No variable that lost a relationship is an orphan, but for those that are doomed or
still to be looked at. -/
def Neat (net : Network) (pending : List VariableId) (t : Teardown) : Prop :=
  ∀ v, v ∉ t.doomed → v ∉ pending → (∃ r ∈ net.lostRelationships t.network, net.Touches r v) →
    ¬ t.network.isOrphan v

def Work.pending : Work → List VariableId
  | .collect vs => vs
  | .destroy _ | .release _ => []

theorem Neat.remove {pending : List VariableId} (h : Neat net pending t)
    (hi : t.network.Integrity) (hs : Shrinks net t.network) {rel : Relationship} {net' : Network}
    (hr : t.network.removeRelationship r = some (rel, net')) :
    Neat net (rel.relation.operands ++ pending) { t with network := net' } := by
  intro v hd hp ⟨s, ⟨hlive, hgone⟩, ht⟩
  replace hgone : net'.relationshipAt s = none := hgone
  rw [List.mem_append, not_or] at hp
  have hrel := relationshipAt_of_removeRelationship hr
  have hsr : r ≠ s := by
    rintro rfl
    exact hp.1 ((touches_iff_mem (hs.relationship hrel)).mp ht)
  rw [relationshipAt_removeRelationship hr, if_neg hsr] at hgone
  rw [isOrphan_removeRelationship hi hr hp.1]
  exact h v hd hp.2 ⟨s, ⟨hlive, hgone⟩, ht⟩

theorem Razes.destroyed (h : Razes (.destroy v) t t') :
    v ∈ t'.doomed ∧ t'.network.variableAt v = none := by
  cases h with
  | destroys hd hx h =>
    exact ⟨h.doomed List.mem_cons_self, by rw [variableAt_dropVariable, if_pos rfl]⟩

theorem Razes.neat (h : Razes w t t') (hi : net.Integrity) (hs : Shrinks net t.network)
    (pending : List VariableId) (hn : Neat net (w.pending ++ pending) t) :
    Neat net pending t' := by
  induction h generalizing pending with
  | @destroys t t' v x hd hx h ih =>
    have hlast := ih hs pending fun u hu => hn u fun hmem => hu (List.mem_cons_of_mem _ hmem)
    intro u hu hp ⟨s, ⟨hlive, hgone⟩, ht⟩
    have hne : v ≠ u := fun he => hu (he ▸ h.doomed List.mem_cons_self)
    replace hgone : (t'.network.dropVariable v).relationshipAt s = none := hgone
    rw [relationshipAt_dropVariable] at hgone
    rw [isOrphan_dropVariable hne]
    exact hlast u hu hp ⟨s, ⟨hlive, hgone⟩, ht⟩
  | released | collected => exact hn
  | passes _ _ ih => exact ih hs pending hn
  | @removes t mid t' r rs rel net' hr h h' ih ih' =>
    have hs' : Shrinks net net' := hs.tail (.remove hr)
    have hmid := ih hs' pending (Neat.remove hn (hs.edits.integrity hi) hs hr)
    exact ih' (hs'.trans (h.shrinks (hs'.edits.integrity hi))) pending hmid
  | @spares t t' v vs hspared h ih =>
    apply ih hs pending
    intro u hu hp hlost
    by_cases huv : u = v
    · subst huv
      exact hspared.resolve_left hu
    · exact hn u hu (fun hmem => (List.mem_cons.mp hmem).elim huv hp) hlost
  | @collects t mid t' v vs hd ho h h' ih ih' =>
    have hmid := ih hs (v :: vs ++ pending) hn
    apply ih' (hs.trans (h.shrinks (hs.edits.integrity hi))) pending
    intro u hu hp hlost
    have huv : u ≠ v := fun he => hu (he ▸ h.destroyed.1)
    exact hmid u hu (fun hmem => (List.mem_cons.mp hmem).elim huv hp) hlost

theorem Razes.gone_of_doomed (h : Razes w t t') (hv : v ∈ t'.doomed) :
    v ∈ t.doomed ∨ t'.network.variableAt v = none := by
  have hkeeps {w : Work} {t t' : Teardown} (h : Razes w t t')
      (hgone : t.network.variableAt v = none) : t'.network.variableAt v = none := by
    rw [← Option.not_isSome_iff_eq_none] at hgone ⊢
    exact fun hlive => hgone (h.live hlive)
  induction h with
  | @destroys t t' u x hd hx h ih =>
    by_cases huv : u = v
    · exact .inr (by rw [variableAt_dropVariable, if_pos huv])
    · rcases ih hv with hmem | hgone
      · exact .inl ((List.mem_cons.mp hmem).resolve_left (Ne.symm huv))
      · exact .inr (by rw [variableAt_dropVariable, if_neg huv, hgone])
  | released | collected => exact .inl hv
  | passes _ _ ih | spares _ _ ih => exact ih hv
  | removes _ _ h' ih ih' | collects _ _ _ h' ih ih' =>
    rcases ih' hv with hmem | hgone
    · exact (ih hmem).imp_right (hkeeps h')
    · exact .inr hgone

variable {doomed : List VariableId}

theorem neat_start (net : Network) (doomed pending : List VariableId) :
    Neat net pending ⟨net, doomed⟩ := by
  intro v _ _ ⟨r, hr, _⟩
  simp at hr

theorem Razes.closed (h : Razes w ⟨net, doomed⟩ t') (hi : net.Integrity) :
    net.Closed {v | v ∈ doomed} (net.lostVariables t'.network)
      (net.lostRelationships t'.network) := by
  have hs : Shrinks net t'.network := h.shrinks hi
  have hi' := hs.edits.integrity hi
  constructor
  · intro v ⟨_, hgone⟩ x hx r hr
    obtain ⟨rel, hrel, hv⟩ := (hi.attached v x hx r).mp hr
    have hlive : (net.relationshipAt r).isSome := by rw [hrel]; rfl
    by_contra hkept
    rw [not_mem_lostRelationships hlive] at hkept
    obtain ⟨rel', hrel'⟩ := Option.isSome_iff_exists.mp hkept
    have hsame := hs.relationship hrel'
    rw [hrel] at hsame
    cases hsame
    have hoperand := hi'.operand_live r v ⟨rel, hrel', hv⟩
    rw [hgone] at hoperand
    cases hoperand
  · intro r hr v ht hspared horphaned
    have hlive := hi.operand_live r v ht
    by_contra hkept
    rw [not_mem_lostVariables hlive] at hkept
    have hd : v ∉ t'.doomed := by
      intro hmem
      rcases h.gone_of_doomed hmem with hmem | hgone
      · exact hspared hmem
      · rw [hgone] at hkept
        cases hkept
    have hneat := h.neat hi .refl [] (neat_start net doomed _)
    exact hneat v hd List.not_mem_nil ⟨r, hr, ht⟩ ((hs.isOrphan_iff hi hkept).mpr horphaned)

theorem goneWithin_start (net : Network) (doomed : List VariableId) (T : Set VariableId)
    (R : Set RelationshipId) : GoneWithin net T R ⟨net, doomed⟩ := by
  simp [GoneWithin]

theorem Razes.tidy (h : Razes w ⟨net, doomed⟩ t') (hi : net.Integrity) (hv : v ∉ doomed)
    (hr : r ∈ net.lostRelationships t'.network) (ht : net.Touches r v) :
    ¬ t'.network.isOrphan v := by
  intro ho
  have hlive := isSome_of_isOrphan ho
  have hs : Shrinks net t'.network := h.shrinks hi
  have hlost := (h.closed hi).orphans r hr v ht hv ((hs.isOrphan_iff hi hlive).mp ho)
  exact (not_mem_lostVariables (hi.operand_live r v ht)).mpr hlive hlost

end Teardown

namespace Network

open Teardown

variable {net net' : Network} {v : VariableId} {start spared : Set VariableId}
  {cut : Set RelationshipId}

/-- What is lost is the orphan closure, so nothing pinned is lost that is not where the
removal starts, and no orphan is left that lost a relationship. -/
structure Collects (net : Network) (start : Set VariableId) (cut : Set RelationshipId)
    (spared : Set VariableId) (net' : Network) : Prop where
  closure : net.OrphanClosure start cut spared (net.lostVariables net')
    (net.lostRelationships net')
  residue : net.Residue net'
  pinned : ∀ v x, net.variableAt v = some x → x.holding.isPinned → x.kind ≠ .constant →
    v ∉ start → (net'.variableAt v).isSome
  tidy : ∀ r ∈ net.lostRelationships net', ∀ v, net.Touches r v → v ∉ spared → ¬ net'.isOrphan v

theorem OrphanClosure.pinned_left
    (h : net.OrphanClosure start cut spared (net.lostVariables net') (net.lostRelationships net'))
    {x : Variable} (hx : net.variableAt v = some x) (hp : x.holding.isPinned)
    (hk : x.kind ≠ .constant) (hs : v ∉ start) : (net'.variableAt v).isSome := by
  have hlive : (net.variableAt v).isSome := by rw [hx]; rfl
  exact (not_mem_lostVariables hlive).mp (h.spares hs hx hk (.inl hp))

theorem collects_destroyVariable (hi : net.Integrity) (hv : (net.variableAt v).isSome) :
    ∃ after, net.destroyVariable v = (true, after) ∧ net.Collects {v} ∅ ∅ after := by
  obtain ⟨t, h, he⟩ := razes_destroyVariable hv
  have hclosure : net.OrphanClosure {v} ∅ ∅ (net.lostVariables t.network)
      (net.lostRelationships t.network) := {
    starts := by
      rintro _ rfl
      exact ⟨hv, h.destroyed.2⟩
    cuts := Set.empty_subset _
    closed := by simpa using h.closed hi
    least := fun T' R' hstart _ hc =>
      h.goneWithin hi hc .refl (fun _ hmem => hmem.elim) (hstart rfl)
        (goneWithin_start net [] T' R') }
  exact ⟨t.network, he, hclosure, Shrinks.residue (h.shrinks hi) hi,
    fun _ _ => hclosure.pinned_left, fun _ hr _ ht _ => h.tidy hi List.not_mem_nil hr ht⟩

theorem closed_redefine {definitions : Table VariableId RelationshipId} {T : Set VariableId}
    {R : Set RelationshipId} :
    { net with definitions := definitions }.Closed spared T R ↔ net.Closed spared T R :=
  ⟨fun h => ⟨h.attached, h.orphans⟩, fun h => ⟨h.attached, h.orphans⟩⟩

theorem collects_nothing (hi : net.Integrity) : net.Collects ∅ ∅ spared net := by
  have hclosure : net.OrphanClosure ∅ ∅ spared (net.lostVariables net)
      (net.lostRelationships net) := by
    rw [lostVariables_self, lostRelationships_self]
    exact ⟨subset_rfl, subset_rfl, ⟨fun _ h => h.elim, fun _ h => h.elim⟩,
      fun _ _ _ _ _ => ⟨Set.empty_subset _, Set.empty_subset _⟩⟩
  refine ⟨hclosure, Shrinks.residue .refl hi, fun _ _ => hclosure.pinned_left, ?_⟩
  intro r hr
  simp at hr

section Undefine

variable {r : RelationshipId} {t : Teardown}

theorem integrity_forget (hi : net.Integrity) (v : VariableId) :
    { net with definitions := net.definitions.erase v }.Integrity :=
  (Edit.undefine net v).integrity hi

theorem defining_lost (hi : net.Integrity) (hr : net.definitions.find? v = some r)
    (h : Razes (.release [r]) ⟨{ net with definitions := net.definitions.erase v }, [v]⟩ t) :
    r ∈ net.lostRelationships t.network := by
  obtain ⟨-, rel, right, hrel, -⟩ := hi.defined v r hr
  have hlive : (net.relationshipAt r).isSome := by rw [hrel]; rfl
  exact ⟨hlive, (h.shrinks_done (integrity_forget hi v)).2 r List.mem_cons_self⟩

theorem closure_undefine (hi : net.Integrity) (hr : net.definitions.find? v = some r)
    (h : Razes (.release [r]) ⟨{ net with definitions := net.definitions.erase v }, [v]⟩ t) :
    net.OrphanClosure ∅ {s | some r = some s} {v} (net.lostVariables t.network)
      (net.lostRelationships t.network) where
  starts := Set.empty_subset _
  cuts := by
    intro s hs
    cases hs
    exact defining_lost hi hr h
  closed := by
    have hc : net.Closed {w | w ∈ [v]} (net.lostVariables t.network)
        (net.lostRelationships t.network) := closed_redefine.mp (h.closed (integrity_forget hi v))
    simpa using hc
  least T' R' _ hcut hc := by
    apply h.goneWithin (integrity_forget hi v) (closed_redefine.mpr hc) .refl _ _
      (goneWithin_start _ _ T' R')
    · intro w hw
      exact List.mem_singleton.mpr hw
    · intro s hs
      rw [List.mem_singleton.mp hs]
      exact hcut rfl

theorem residue_undefine (hi : net.Integrity) (hr : net.definitions.find? v = some r)
    (h : Razes (.release [r]) ⟨{ net with definitions := net.definitions.erase v }, [v]⟩ t) :
    net.Residue t.network := by
  have hi₀ := integrity_forget hi v
  have hres := Shrinks.residue (h.shrinks hi₀) hi₀
  refine ⟨hres.old_variables, hres.old_relationships, hres.order, hres.names, fun w s => ?_,
    hres.rest⟩
  rw [hres.definitions, Table.find?_erase]
  by_cases hw : w = v
  · -- The entry of the variable itself goes with the relationship that defines it.
    subst hw
    simp only [if_true, reduceCtorEq, false_and, false_iff, hr, Option.some.injEq]
    intro hleft
    exact hleft.2.2 (hleft.1 ▸ defining_lost hi hr h)
  · rw [if_neg hw]
    exact Iff.rfl

theorem collects_undefine (hi : net.Integrity) (v : VariableId) :
    net.Collects ∅ {r | net.definitions.find? v = some r} {v} (net.undefine v) := by
  cases hr : net.definitions.find? v with
  | none =>
    have hcut : {r | (none : Option RelationshipId) = some r} = ∅ := by
      apply Set.eq_empty_of_forall_notMem
      intro r h
      cases h
    rw [hcut, undefine, hr]
    exact collects_nothing hi
  | some r =>
    obtain ⟨t, h, he⟩ := razes_undefine hr
    have hclosure := closure_undefine hi hr h
    rw [he]
    refine ⟨hclosure, residue_undefine hi hr h, fun _ _ => hclosure.pinned_left,
      fun s hs w ht hw => ?_⟩
    exact h.tidy (integrity_forget hi v) (fun hmem => hw (List.mem_singleton.mp hmem)) hs ht

end Undefine

theorem Collects.unconnected (h : net.Collects {v} ∅ spared net') (hi : net.Integrity)
    {w : VariableId} (hw : ¬ net.Connected v w) :
    net'.variableAt w = net.variableAt w ∧
      ∀ r, net.Touches r w → net'.relationshipAt r = net.relationshipAt r := by
  obtain ⟨hvars, hrels⟩ := h.closure.connected hi
  have hkept {r : RelationshipId} (ht : net.Touches r w) : r ∉ net.lostRelationships net' := by
    intro hlost
    obtain ⟨u, hu, hconnected⟩ := hrels r hlost
    exact hw (hconnected.tail ⟨r, hu, ht⟩)
  constructor
  · cases hy : net'.variableAt w with
    | none =>
      cases hx : net.variableAt w with
      | none => rfl
      | some x => exact absurd (hvars w ⟨by rw [hx]; rfl, hy⟩) hw
    | some y =>
      obtain ⟨x, hx, he⟩ := h.residue.old_variables w y hy
      have hsame : x.without (net.lostRelationships net') = x := by
        unfold Variable.without
        rw [outside_eq_self fun r hr => hkept ((hi.attached w x hx r).mp hr)]
      rw [hx, he, hsame]
  · intro r ht
    obtain ⟨rel, hrel, -⟩ := id ht
    have hlive := (not_mem_lostRelationships (by rw [hrel]; rfl)).mp (hkept ht)
    obtain ⟨rel', hrel'⟩ := Option.isSome_iff_exists.mp hlive
    rw [hrel', h.residue.old_relationships r rel' hrel']

/-- Destroying a variable, by handle or by name, removes exactly the least orphan closure
that it starts, and what is not connected to it stays entirely as it is. Clearing a
variable removes the closure that the loss of its definition starts, where the variable
itself is spared; then it forgets its value. -/
theorem teardown_removes_orphan_closure (hr : Reachable net) :
    (∀ v, (net.variableAt v).isSome → ∃ after,
      net.perform (.destroyVariable v) = ⟨.ok (.flag true), after, []⟩ ∧
      (∀ name, net.lookup name = some v →
        net.perform (.destroy name) = ⟨.ok (.flag true), after, []⟩) ∧
      net.Collects {v} ∅ ∅ after ∧
      ∀ w, ¬ net.Connected v w → after.variableAt w = net.variableAt w ∧
        ∀ r, net.Touches r w → after.relationshipAt r = net.relationshipAt r) ∧
    ∀ name v, net.lookup name = some v → ∃ mid,
      net.perform (.clear name) = ⟨.ok .done, mid.updateVariable v Variable.clear, []⟩ ∧
      net.Collects ∅ {r | net.definitions.find? v = some r} {v} mid ∧
      (mid.variableAt v).isSome := by
  have hi := hr.integrity
  constructor
  · intro v hv
    obtain ⟨after, he, hc⟩ := collects_destroyVariable hi hv
    refine ⟨after, by simp only [perform, he], fun name hname => ?_, hc, fun w => hc.unconnected hi⟩
    simp only [perform, destroy, hname, he]
  · intro name v hname
    have hc := collects_undefine hi v
    refine ⟨net.undefine v, by simp only [perform, clear, hname], hc, ?_⟩
    rw [← not_mem_lostVariables (hi.live_of_lookup hname)]
    intro hlost
    exact (hc.closure.orphaned hlost (Set.notMem_empty v)).1 rfl

def definedDifference : Network :=
  (empty .standard).after [.set "W" (.expression "R - L"), .assign "R" 3]

theorem teardown_removes_orphan_closure_difference :
    Reachable definedDifference ∧ definedDifference.lookup "W" = some ⟨0⟩ ∧
      (∃ after, definedDifference.perform (.destroy "W") = ⟨.ok (.flag true), after, []⟩ ∧
        definedDifference.Collects {⟨0⟩} ∅ ∅ after ∧
        (after.variableAt ⟨1⟩).isSome ∧ after.variableAt ⟨2⟩ = none ∧
        after.variableAt ⟨3⟩ = none) ∧
      ∃ mid, definedDifference.perform (.clear "W") =
          ⟨.ok .done, mid.updateVariable ⟨0⟩ Variable.clear, []⟩ ∧
        definedDifference.Collects ∅ {r | some ⟨1⟩ = some r} {⟨0⟩} mid := by
  have hr : Reachable definedDifference := ⟨.standard, empty .standard, _, create_standard, rfl⟩
  have hname : definedDifference.lookup "W" = some ⟨0⟩ := rfl
  have hdef : definedDifference.definitions.find? ⟨0⟩ = some ⟨1⟩ := rfl
  obtain ⟨hdestroy, hclear⟩ := teardown_removes_orphan_closure hr
  obtain ⟨after, -, hafter, hcollects, -⟩ := hdestroy ⟨0⟩ rfl
  obtain ⟨mid, hmid, hspared, -⟩ := hclear "W" ⟨0⟩ hname
  rw [hdef] at hspared
  have hresult : (definedDifference.perform (.destroy "W")).network = after := by
    rw [hafter "W" hname]
  have hgone : (after.variableAt ⟨1⟩).isSome ∧ after.variableAt ⟨2⟩ = none ∧
      after.variableAt ⟨3⟩ = none := hresult ▸ ⟨rfl, rfl, rfl⟩
  exact ⟨hr, hname, ⟨after, hafter "W" hname, hcollects, hgone⟩, mid, hmid, hspared⟩

end Network

end ConstraintNet
