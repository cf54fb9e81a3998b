import ConstraintNet.Proofs.Orphans
import ConstraintNet.Proofs.Projection

/-!
# Independent parts do not interfere

Where the variables fall into two parts that no relationship joins, one part can be destroyed
and the other one takes no notice of it: it is still there, and solving it comes to the same.
-/

set_option autoImplicit false

namespace ConstraintNet.Network

variable {net mid net' : Network} {X : Set VariableId} {R : Set RelationshipId}
  {v w : VariableId} {r : RelationshipId}

theorem Split.shrinks (hs : net.Split X R) (h : Shrinks net net') : net'.Split X R :=
  fun r v ht => hs r v (h.touches ht)

theorem Split.connected (hs : net.Split X R) (h : net.Connected v w) : v ∈ X ↔ w ∈ X := by
  induction h with
  | refl => rfl
  | tail _ hlink ih =>
    obtain ⟨r, hv, hw⟩ := hlink
    exact ih.trans ((hs r _ hv).trans (hs r _ hw).symm)

theorem Split.destroyVariable (hs : net.Split X R) (hi : net.Integrity)
    (hv : (net.variableAt v).isSome → v ∉ X) : SameOn X R net (net.destroyVariable v).2 := by
  by_cases hlive : (net.variableAt v).isSome
  · obtain ⟨after, he, hc⟩ := collects_destroyVariable hi hlive
    rw [he]
    have hapart {w : VariableId} (hw : w ∈ X) : ¬ net.Connected v w :=
      fun hconnected => hv hlive ((hs.connected hconnected).mpr hw)
    refine ⟨by rw [hc.residue.rest], fun w hw => (hc.unconnected hi (hapart hw)).1, fun r hr => ?_⟩
    cases hrel : net.relationshipAt r with
    | none =>
      apply Option.eq_none_iff_forall_ne_some.mpr
      intro rel hrel'
      rw [hc.residue.old_relationships r rel hrel'] at hrel
      cases hrel
    | some rel =>
      have ht : net.Touches r rel.relation.result := ⟨rel, hrel, Relation.result_mem_operands _⟩
      rw [(hc.unconnected hi (hapart ((hs r _ ht).mpr hr))).2 r ht, hrel]
  · have hgone : net.variableAt v = none := by simpa using hlive
    simp only [Network.destroyVariable, hgone]
    exact .refl X R net

theorem variableAt_destroyVariable (hi : net.Integrity) (v : VariableId) :
    (net.destroyVariable v).2.variableAt v = none := by
  by_cases hlive : (net.variableAt v).isSome
  · obtain ⟨after, he, hc⟩ := collects_destroyVariable hi hlive
    rw [he]
    exact (hc.closure.starts (Set.mem_singleton v)).2
  · have hgone : net.variableAt v = none := by simpa using hlive
    simp only [Network.destroyVariable, hgone]

theorem Shrinks.was_live (h : Shrinks net net') (hv : (net'.variableAt v).isSome) :
    (net.variableAt v).isSome := by
  obtain ⟨y, hy⟩ := Option.isSome_iff_exists.mp hv
  obtain ⟨x, hx, -⟩ := h.old_variable hy
  rw [hx]
  rfl

def destroyEach (net : Network) (vs : List VariableId) : Network :=
  net.after (vs.map .destroyVariable)

theorem shrinks_destroyEach (hi : net.Integrity) (vs : List VariableId) :
    Shrinks net (net.destroyEach vs) ∧ ∀ v ∈ vs, (net.destroyEach vs).variableAt v = none := by
  induction vs generalizing net with
  | nil => exact ⟨.refl, by simp⟩
  | cons v vs ih =>
    have hfirst := shrinks_destroyVariable hi v
    obtain ⟨hrest, hgone⟩ := ih (hfirst.edits.integrity hi)
    refine ⟨hfirst.trans hrest, List.forall_mem_cons.mpr ⟨?_, hgone⟩⟩
    have hv := variableAt_destroyVariable hi v
    rw [← Option.not_isSome_iff_eq_none] at hv ⊢
    exact fun hlive => hv (hrest.was_live hlive)

theorem Split.destroyEach (hs : net.Split X R) (hi : net.Integrity) {vs : List VariableId}
    (hvs : ∀ v ∈ vs, (net.variableAt v).isSome → v ∉ X) : SameOn X R net (net.destroyEach vs) := by
  induction vs generalizing net with
  | nil => exact .refl X R net
  | cons v vs ih =>
    have hshrinks := shrinks_destroyVariable hi v
    obtain ⟨hv, hvs⟩ := List.forall_mem_cons.mp hvs
    refine (hs.destroyVariable hi hv).trans
      (ih (hs.shrinks hshrinks) (hshrinks.edits.integrity hi) fun w hw hlive => hvs w hw ?_)
    exact hshrinks.was_live hlive

theorem Split.alone (hs : net.Split X R) (hi : net.Integrity) {d : Digest} (hfresh : net.Fresh d)
    {vs : List VariableId} (hvs : ∀ v, (net.variableAt v).isSome → (v ∈ vs ↔ v ∉ X)) :
    net.Alone X R d (net.destroyEach vs) := by
  obtain ⟨hshrinks, hgone⟩ := shrinks_destroyEach hi vs
  have hi' := hshrinks.edits.integrity hi
  have hsame := hs.destroyEach hi fun v hv hlive => (hvs v hlive).mp hv
  refine ⟨hsame, ?_, hi', fun r hm => ?_⟩
  · rw [hshrinks.order hi]
    apply List.filter_congr
    intro r hr
    have hrel := (hi.mem_order r).mp hr
    simp only [decide_eq_decide]
    rw [not_mem_lostRelationships hrel]
    constructor
    · -- What is left of a relationship has its operands left, and those are on this side.
      intro hkept
      obtain ⟨rel, hrel'⟩ := Option.isSome_iff_exists.mp hkept
      have ht : (net.destroyEach vs).Touches r rel.relation.result :=
        ⟨rel, hrel', Relation.result_mem_operands _⟩
      have hlive := hi'.operand_live r _ ht
      have hnot : rel.relation.result ∉ vs := by
        intro hmem
        rw [hgone _ hmem] at hlive
        cases hlive
      have hin := (hvs _ (hshrinks.was_live hlive)).not_left.mp hnot
      exact (hs r _ (hshrinks.touches ht)).mp hin
    · intro hin
      rwa [hsame.rels r hin]
  · obtain ⟨rel, hrel, hmarker⟩ := isMarked_iff.mp hm
    have hunmarked := hfresh.unmarked r rel (hshrinks.relationship hrel)
    exact absurd (isMarked_iff_marker.mpr hmarker) hunmarked

/-- Where the variables fall into two parts so that the operands of each relationship are all in
one of them, destroying every variable of the other part, in any order, leaves this part and its
relationships as they are. If solving a fresh digest answered before, it answers as well after
that; every variable of this part ends the same and with the same value in the digest, and its
watches are told the same values in the same order: of the rounds of watches, one for each
variable that became known, those of the other part are left out. -/
theorem independent_parts_do_not_interfere (hr : Reachable net) {X : Set VariableId}
    (hsplit : ∀ r rel, net.relationshipAt r = some rel →
      (∀ v ∈ rel.relation.operands, v ∈ X) ∨ ∀ v ∈ rel.relation.operands, v ∉ X)
    {others : List VariableId}
    (hothers : ∀ v, (net.variableAt v).isSome → (v ∈ others ↔ v ∉ X)) {d : Digest}
    (hfresh : net.Fresh d) (hok : (net.perform (.solve d)).result.isOk) :
    let part := net.after (others.map .destroyVariable)
    (∀ v, (part.variableAt v).isSome → v ∈ X) ∧
    (∀ v ∈ X, part.variableAt v = net.variableAt v) ∧
    (∀ r rel, net.relationshipAt r = some rel → (∀ v ∈ rel.relation.operands, v ∈ X) →
      part.relationshipAt r = some rel) ∧
    (part.perform (.solve d)).result.isOk ∧
    (∀ v ∈ X, (part.perform (.solve d)).network.variableAt v =
        (net.perform (.solve d)).network.variableAt v ∧
      (part.perform (.solve d)).network.valueAt d v =
        (net.perform (.solve d)).network.valueAt d v) ∧
    ∃ written, net.Learned d written (net.perform (.solve d)).network ∧
      (net.perform (.solve d)).fired =
        written.flatMap ((net.perform (.solve d)).network.firings d) ∧
      (part.perform (.solve d)).fired =
        (within X written).flatMap ((net.perform (.solve d)).network.firings d) := by
  intro part
  have hi := hr.integrity
  let R : Set RelationshipId := {r | ∃ v ∈ X, net.Touches r v}
  have hs : net.Split X R := by
    intro r v ht
    obtain ⟨rel, hrel, hv⟩ := id ht
    refine ⟨fun hin => ⟨v, hin, ht⟩, fun ⟨w, hin, ht'⟩ => ?_⟩
    rcases hsplit r rel hrel with hall | hnone
    · exact hall v hv
    · exact absurd hin (hnone w ((touches_iff_mem hrel).mp ht'))
  have halone : net.Alone X R d part := hs.alone hi hfresh hothers
  obtain ⟨hanswers, hsame, htold⟩ := halone.solves hi hs hok
  obtain ⟨hshrinks, hgone⟩ := shrinks_destroyEach hi others
  refine ⟨fun v hv => ?_, halone.same.vars, fun r rel hrel hall => ?_, hanswers,
    fun v hv => ⟨hsame.vars v hv, hsame.valueAt hv⟩, htold⟩
  · have hlive : (net.variableAt v).isSome := hshrinks.was_live hv
    refine (hothers v hlive).not_left.mp fun hmem => ?_
    exact Option.not_isSome_iff_eq_none.mpr (hgone v hmem) hv
  · have hin : r ∈ R := ⟨_, hall _ (Relation.result_mem_operands _), rel, hrel,
      Relation.result_mem_operands _⟩
    exact (halone.same.rels r hin).trans hrel

def twoChains : Network :=
  (empty .standard).after [.equals (.name "c") (.name "b"), .equals (.name "z") (.name "y"),
    .equals (.name "b") (.name "a"), .equals (.name "y") (.name "x"), .assign "a" 1,
    .assign "x" 2, .watch "c" 7, .watch "z" 9]

theorem independent_parts_do_not_interfere_twoChains :
    Reachable twoChains ∧ twoChains.Fresh 1 ∧
      (twoChains.perform (.solve 1)).fired.map Firing.watch = [7, 9] ∧
      let part := twoChains.after [.destroyVariable ⟨2⟩, .destroyVariable ⟨3⟩, .destroyVariable ⟨5⟩]
      part.relationshipAt ⟨2⟩ = some (.ofRelation (.equality ⟨1⟩ ⟨4⟩)) ∧
        (part.perform (.solve 1)).result.isOk ∧
        (part.perform (.solve 1)).network.valueAt 1 ⟨0⟩ =
          (twoChains.perform (.solve 1)).network.valueAt 1 ⟨0⟩ := by
  have hr : Reachable twoChains := ⟨.standard, empty .standard, _, create_standard, rfl⟩
  have hfresh : twoChains.Fresh 1 := hr.wellHeld.fresh (by decide +kernel)
  have hok : (twoChains.perform (.solve 1)).result.isOk := by decide +kernel
  let others : List VariableId := [⟨2⟩, ⟨3⟩, ⟨5⟩]
  have horder : twoChains.order = [⟨0⟩, ⟨1⟩, ⟨2⟩, ⟨3⟩] := rfl
  have hsplit : ∀ r rel, twoChains.relationshipAt r = some rel →
      (∀ v ∈ rel.relation.operands, v ∉ others) ∨ ∀ v ∈ rel.relation.operands, ¬ v ∉ others := by
    intro r rel hrel
    have hmem : r ∈ twoChains.order := (hr.integrity.mem_order r).mpr (by rw [hrel]; rfl)
    rw [horder] at hmem
    simp only [List.mem_cons, List.not_mem_nil, or_false] at hmem
    rcases hmem with rfl | rfl | rfl | rfl <;> cases hrel
    · exact .inl (by decide +kernel)
    · exact .inr (by decide +kernel)
    · exact .inl (by decide +kernel)
    · exact .inr (by decide +kernel)
  have hothers : ∀ v, (twoChains.variableAt v).isSome → (v ∈ others ↔ ¬ v ∉ others) :=
    fun v _ => not_not.symm
  obtain ⟨-, -, hrels, hanswers, hvalues, -⟩ :=
    independent_parts_do_not_interfere hr (X := {v | v ∉ others}) hsplit hothers hfresh hok
  have hwatches : (twoChains.perform (.solve 1)).fired.map Firing.watch = [7, 9] := by
    decide +kernel
  have hinside : ∀ v ∈ (Relation.equality ⟨1⟩ ⟨4⟩).operands, v ∉ others := by decide +kernel
  have hend : (⟨0⟩ : VariableId) ∉ others := by decide +kernel
  exact ⟨hr, hfresh, hwatches, hrels ⟨2⟩ _ rfl hinside, hanswers, (hvalues ⟨0⟩ hend).2⟩

end ConstraintNet.Network
