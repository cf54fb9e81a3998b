import Mathlib.Data.Finset.Card
import Mathlib.Data.Finset.Range
import Mathlib.Logic.Relation
import ConstraintNet.Proofs.Edit

/-!
# Teardown without its bound

Teardown as a relation between what was there before and what is left, with no count
of variables in it. The program that stops at a depth follows it, since every variable
that it enters is doomed and never entered again. However deep it goes, it is a chain
of discards: a variable is dropped only after every relationship that touched it is
gone.
-/

set_option autoImplicit false

namespace ConstraintNet

namespace Teardown

open Network

inductive Work where
  | destroy (v : VariableId)
  | release (rs : List RelationshipId)
  /-- Destroys those of some operands that are orphans. -/
  | collect (vs : List VariableId)

inductive Razes : Work → Teardown → Teardown → Prop
  | destroys {t t' : Teardown} {v : VariableId} {x : Variable} (hd : v ∉ t.doomed)
      (hx : t.network.variableAt v = some x)
      (h : Razes (.release x.relationships) { t with doomed := v :: t.doomed } t') :
    Razes (.destroy v) t { t' with network := t'.network.dropVariable v }
  | released {t : Teardown} : Razes (.release []) t t
  | passes {t t' : Teardown} {r : RelationshipId} {rs : List RelationshipId}
      (hr : t.network.relationshipAt r = none) (h : Razes (.release rs) t t') :
    Razes (.release (r :: rs)) t t'
  | removes {t mid t' : Teardown} {r : RelationshipId} {rs : List RelationshipId}
      {rel : Relationship} {net : Network} (hr : t.network.removeRelationship r = some (rel, net))
      (h : Razes (.collect rel.relation.operands) { t with network := net } mid)
      (h' : Razes (.release rs) mid t') :
    Razes (.release (r :: rs)) t t'
  | collected {t : Teardown} : Razes (.collect []) t t
  | spares {t t' : Teardown} {v : VariableId} {vs : List VariableId}
      (hs : v ∈ t.doomed ∨ ¬ t.network.isOrphan v) (h : Razes (.collect vs) t t') :
    Razes (.collect (v :: vs)) t t'
  | collects {t mid t' : Teardown} {v : VariableId} {vs : List VariableId}
      (hd : v ∉ t.doomed) (ho : t.network.isOrphan v) (h : Razes (.destroy v) t mid)
      (h' : Razes (.collect vs) mid t') :
    Razes (.collect (v :: vs)) t t'

variable {w : Work} {t t' : Teardown}

theorem Razes.live (h : Razes w t t') {v : VariableId} (hv : (t'.network.variableAt v).isSome) :
    (t.network.variableAt v).isSome := by
  induction h with
  | destroys hd hx h ih =>
    rw [variableAt_dropVariable] at hv
    split at hv
    · cases hv
    · exact ih hv
  | removes hr h h' ih ih' =>
    have hmid := ih (ih' hv)
    rwa [isSome_variableAt_removeRelationship hr] at hmid
  | released | collected => exact hv
  | passes _ _ ih | spares _ _ ih => exact ih hv
  | collects _ _ _ _ ih ih' => exact ih (ih' hv)

theorem Razes.doomed (h : Razes w t t') {v : VariableId} (hv : v ∈ t.doomed) : v ∈ t'.doomed := by
  induction h with
  | destroys _ _ _ ih => exact ih (List.mem_cons_of_mem _ hv)
  | released | collected => exact hv
  | passes _ _ ih | spares _ _ ih => exact ih hv
  | removes _ _ _ ih ih' | collects _ _ _ _ ih ih' => exact ih' (ih hv)

/-- The variables that are there and not doomed. -/
def standing (t : Teardown) : Finset Nat :=
  (Finset.range t.network.vars.next).filter fun i =>
    (t.network.variableAt ⟨i⟩).isSome ∧ ⟨i⟩ ∉ t.doomed

theorem mem_standing {i : Nat} :
    i ∈ t.standing ↔ (t.network.variableAt ⟨i⟩).isSome ∧ ⟨i⟩ ∉ t.doomed := by
  rw [standing, Finset.mem_filter, Finset.mem_range]
  constructor
  · exact And.right
  · intro h
    obtain ⟨x, hx⟩ := Option.isSome_iff_exists.mp h.1
    exact ⟨index_lt_of_variableAt hx, h⟩

theorem Razes.standing_subset (h : Razes w t t') : t'.standing ⊆ t.standing := by
  intro i hi
  rw [mem_standing] at hi ⊢
  exact ⟨h.live hi.1, fun hd => hi.2 (h.doomed hd)⟩

def Destroys (bound : Nat) (destroy : VariableId → Teardown → Teardown) : Prop :=
  ∀ v t, t.standing.card ≤ bound → v ∉ t.doomed → (t.network.variableAt v).isSome →
    Razes (.destroy v) t (destroy v t)

section Nested

variable {bound : Nat} {destroy : VariableId → Teardown → Teardown}

theorem isSome_of_isOrphan {net : Network} {v : VariableId} (h : net.isOrphan v) :
    (net.variableAt v).isSome := by
  unfold isOrphan at h
  cases hx : net.variableAt v with
  | none => simp [hx] at h
  | some x => rfl

theorem razes_collectWith (hd : Destroys bound destroy) (vs : List VariableId) (t : Teardown)
    (hb : t.standing.card ≤ bound) : Razes (.collect vs) t (collectWith destroy vs t) := by
  induction vs generalizing t with
  | nil => exact .collected
  | cons v vs ih =>
    unfold collectWith at ih ⊢
    rw [List.foldl_cons]
    by_cases hv : v ∈ t.doomed
    · simp only [hv, not_true_eq_false, decide_false, Bool.false_and, Bool.false_eq_true, if_false]
      exact .spares (.inl hv) (ih t hb)
    · by_cases ho : t.network.isOrphan v
      · simp only [hv, ho, not_false_eq_true, decide_true, Bool.and_self, if_true]
        have h := hd v t hb hv (isSome_of_isOrphan ho)
        exact .collects hv ho h (ih _ ((Finset.card_le_card h.standing_subset).trans hb))
      · simp only [ho, Bool.and_false, Bool.false_eq_true, if_false]
        exact .spares (.inr ho) (ih t hb)

theorem standing_removeRelationship {net : Network} {r : RelationshipId} {rel : Relationship}
    (hr : t.network.removeRelationship r = some (rel, net)) :
    standing { t with network := net } = t.standing := by
  ext i
  rw [mem_standing, mem_standing, isSome_variableAt_removeRelationship hr]

theorem razes_releaseWith (hd : Destroys bound destroy) (rs : List RelationshipId) (t : Teardown)
    (hb : t.standing.card ≤ bound) : Razes (.release rs) t (rs.foldl (releaseWith destroy) t) := by
  induction rs generalizing t with
  | nil => exact .released
  | cons r rs ih =>
    rw [List.foldl_cons, releaseWith]
    cases hr : t.network.removeRelationship r with
    | none =>
      have hgone : t.network.relationshipAt r = none := by
        cases hrel : t.network.relationshipAt r with
        | none => rfl
        | some rel => simp [removeRelationship, hrel] at hr
      exact .passes hgone (ih t hb)
    | some removed =>
      have hb' : (standing { t with network := removed.2 }).card ≤ bound := by
        rwa [standing_removeRelationship hr]
      have h := razes_collectWith hd removed.1.relation.operands _ hb'
      exact .removes hr h (ih _ ((Finset.card_le_card h.standing_subset).trans hb'))

end Nested

/-- A bound that is not below the count of what is standing is no bound. -/
theorem destroys_destroyWithin (depth : Nat) : Destroys depth (destroyWithin depth) := by
  induction depth with
  | zero =>
    intro v t hb hd hv
    have hempty := Finset.card_eq_zero.mp (Nat.le_zero.mp hb)
    have hmem : v.index ∈ t.standing := mem_standing.mpr ⟨hv, hd⟩
    rw [hempty] at hmem
    exact absurd hmem (Finset.notMem_empty _)
  | succ depth ih =>
    intro v t hb hd hv
    obtain ⟨x, hx⟩ := Option.isSome_iff_exists.mp hv
    have hsub : standing { t with doomed := v :: t.doomed } ⊂ t.standing := by
      rw [Finset.ssubset_iff_of_subset]
      · refine ⟨v.index, mem_standing.mpr ⟨hv, hd⟩, fun hmem => ?_⟩
        exact (mem_standing.mp hmem).2 List.mem_cons_self
      · intro i hi
        rw [mem_standing] at hi ⊢
        exact ⟨hi.1, fun hmem => hi.2 (List.mem_cons_of_mem _ hmem)⟩
    have hb' : (standing { t with doomed := v :: t.doomed }).card ≤ depth :=
      Nat.le_of_lt_succ ((Finset.card_lt_card hsub).trans_le hb)
    have h := razes_releaseWith ih x.relationships _ hb'
    unfold destroyWithin
    simp only [if_neg hd, hx]
    exact .destroys hd hx h

theorem standing_le_variableCount (net : Network) (doomed : List VariableId) :
    (standing ⟨net, doomed⟩).card ≤ net.variableCount := by
  have hcount := Arena.countP_live net.vars fun _ => true
  rw [List.countP_true] at hcount
  unfold variableCount
  rw [hcount]
  apply Finset.card_le_card
  intro i hi
  obtain ⟨hlive, -⟩ := mem_standing.mp hi
  obtain ⟨x, hx⟩ := Option.isSome_iff_exists.mp hlive
  have hget : net.vars.get? i = some x := hx
  rw [Finset.mem_filter, Finset.mem_range]
  exact ⟨Arena.lt_next_of_get? hget, by simp [hget]⟩

end Teardown

namespace Network

variable {net net' : Network}

abbrev Shrinks := Relation.ReflTransGen Discard

theorem Shrinks.edits (h : Shrinks net net') : Edits net net' := by
  induction h with
  | refl => exact .refl
  | tail _ hd ih => exact ih.tail (.discard hd)

theorem Discard.relationship (h : Discard net net') {r : RelationshipId} {rel : Relationship}
    (hr : net'.relationshipAt r = some rel) : net.relationshipAt r = some rel := by
  cases h with
  | remove h =>
    rw [relationshipAt_removeRelationship h] at hr
    split at hr
    · cases hr
    · exact hr
  | drop v hfree => rwa [relationshipAt_dropVariable] at hr

theorem Shrinks.relationship (h : Shrinks net net') {r : RelationshipId} {rel : Relationship}
    (hr : net'.relationshipAt r = some rel) : net.relationshipAt r = some rel := by
  induction h with
  | refl => exact hr
  | tail _ hd ih => exact ih (hd.relationship hr)

theorem Shrinks.gone (h : Shrinks net net') {r : RelationshipId}
    (hr : net.relationshipAt r = none) : net'.relationshipAt r = none := by
  rw [Option.eq_none_iff_forall_ne_some] at hr ⊢
  intro rel hrel
  exact hr rel (h.relationship hrel)

theorem Shrinks.touches (h : Shrinks net net') {r : RelationshipId} {v : VariableId}
    (ht : net'.Touches r v) : net.Touches r v := by
  obtain ⟨rel, hr, hv⟩ := ht
  exact ⟨rel, h.relationship hr, hv⟩

end Network

namespace Teardown

open Network

def Work.Done (net : Network) : Work → Prop
  | .release rs => ∀ r ∈ rs, net.relationshipAt r = none
  | .destroy _ | .collect _ => True

theorem Razes.shrinks_done {w : Work} {t t' : Teardown} (h : Razes w t t')
    (hi : t.network.Integrity) : Shrinks t.network t'.network ∧ w.Done t'.network := by
  induction h with
  | @destroys t t' v x hd hx h ih =>
    obtain ⟨hs, hgone⟩ := ih hi
    refine ⟨hs.tail (.drop _ v fun r ht => ?_), trivial⟩
    -- What still touches the variable touched it before, so it was released.
    have hr := (hi.attached v x hx r).mpr (Shrinks.touches hs ht)
    obtain ⟨rel, hrel, -⟩ := ht
    rw [hgone r hr] at hrel
    cases hrel
  | released => exact ⟨.refl, fun r hr => absurd hr List.not_mem_nil⟩
  | @passes t t' r rs hr h ih =>
    obtain ⟨hs, hgone⟩ := ih hi
    exact ⟨hs, List.forall_mem_cons.mpr ⟨Shrinks.gone hs hr, hgone⟩⟩
  | @removes t mid t' r rs rel net hr h h' ih ih' =>
    have hmid := (ih (hi.removeRelationship hr)).1
    have hall : Shrinks t.network mid.network := .head (.remove hr) hmid
    obtain ⟨hs, hgone⟩ := ih' (hall.edits.integrity hi)
    have hout : net.relationshipAt r = none := by
      simp [relationshipAt_removeRelationship hr]
    exact ⟨hall.trans hs, List.forall_mem_cons.mpr ⟨Shrinks.gone (hmid.trans hs) hout, hgone⟩⟩
  | collected => exact ⟨.refl, trivial⟩
  | spares _ _ ih => exact ⟨(ih hi).1, trivial⟩
  | collects _ _ _ _ ih ih' =>
    have hs := (ih hi).1
    exact ⟨hs.trans (ih' (hs.edits.integrity hi)).1, trivial⟩

theorem Razes.shrinks {w : Work} {t t' : Teardown} (h : Razes w t t')
    (hi : t.network.Integrity) : Shrinks t.network t'.network := (h.shrinks_done hi).1

end Teardown

namespace Network

open Teardown

variable {net : Network}

theorem razes_destroyVariable {v : VariableId} (hv : (net.variableAt v).isSome) :
    ∃ t, Razes (.destroy v) ⟨net, []⟩ t ∧ net.destroyVariable v = (true, t.network) := by
  obtain ⟨x, hx⟩ := Option.isSome_iff_exists.mp hv
  have h := destroys_destroyWithin net.variableCount v ⟨net, []⟩
    (standing_le_variableCount net []) List.not_mem_nil hv
  exact ⟨_, h, by simp only [destroyVariable, hx]⟩

/-- Without its definition, a variable loses what defined it; the variable itself
counts as doomed, so that it is not collected. -/
theorem razes_undefine {v : VariableId} {r : RelationshipId}
    (hr : net.definitions.find? v = some r) :
    ∃ t, Razes (.release [r]) ⟨{ net with definitions := net.definitions.erase v }, [v]⟩ t ∧
      net.undefine v = t.network := by
  have h := razes_releaseWith (destroys_destroyWithin net.variableCount) [r]
    ⟨{ net with definitions := net.definitions.erase v }, [v]⟩
    (standing_le_variableCount { net with definitions := net.definitions.erase v } [v])
  exact ⟨_, h, by simp only [undefine, hr]; rfl⟩

theorem shrinks_destroyVariable (hi : net.Integrity) (v : VariableId) :
    Shrinks net (net.destroyVariable v).2 := by
  cases hx : net.variableAt v with
  | none =>
    simp only [destroyVariable, hx]
    exact .refl
  | some x =>
    have hv : (net.variableAt v).isSome := by rw [hx]; rfl
    obtain ⟨t, h, he⟩ := razes_destroyVariable hv
    rw [he]
    exact h.shrinks hi

theorem shrinks_destroy (hi : net.Integrity) (name : String) :
    Shrinks net (net.destroy name).2 := by
  unfold destroy
  split
  · exact .refl
  · exact shrinks_destroyVariable hi _

theorem edits_undefine (hi : net.Integrity) (v : VariableId) : Edits net (net.undefine v) := by
  cases hr : net.definitions.find? v with
  | none =>
    simp only [undefine, hr]
    exact .refl
  | some r =>
    obtain ⟨t, h, he⟩ := razes_undefine hr
    have hedit : Edit net { net with definitions := net.definitions.erase v } := .undefine net v
    rw [he]
    exact .head hedit (Shrinks.edits (h.shrinks (hedit.integrity hi)))

theorem edits_clear (hi : net.Integrity) (name : String) : Edits net (net.clear name) := by
  unfold clear
  split
  · exact .refl
  · rename_i v hv
    refine (edits_undefine hi v).tail (.hold _ v .unset ?_ ?_)
    · simp [Holding.state]
    · simp [Holding.value?]

end Network

end ConstraintNet
