import ConstraintNet.Proofs.Checking
import ConstraintNet.Proofs.Orphans

/-!
# An equality written either way round

The operand that an equality is written for counts as its result, and the orphan rule asks
for the result. Two networks that differ in how one equality is written are compared here
by their closures: one contains the other, and they are the same unless the equality is
all that a removal leaves of an intermediate.
-/

set_option autoImplicit false

namespace ConstraintNet

namespace Network

variable {net net' : Network} {p q v : VariableId} {r : RelationshipId}
  {T T' : Set VariableId} {R R' : Set RelationshipId}

/-- Two networks are the same but for one equality, which the first has for `p` and the
second for `q`. -/
structure Mirrored (r : RelationshipId) (p q : VariableId) (net net' : Network) : Prop where
  vars : ∀ v, net'.variableAt v = net.variableAt v
  others : ∀ s, s ≠ r → net'.relationshipAt s = net.relationshipAt s
  here : net.relationshipAt r = some (.ofRelation (.equality p q))
  there : net'.relationshipAt r = some (.ofRelation (.equality q p))

theorem mem_operands_equality : v ∈ (Relation.equality p q).operands ↔ v = p ∨ v = q := by
  simp only [Relation.operands, Relation.result, Relation.arguments, List.mem_cons,
    List.not_mem_nil, or_false]

theorem mirrored_relate (net : Network) (p q : VariableId) :
    Mirrored ⟨net.relationships.next⟩ p q (net.relate (.equality p q)).2
      (net.relate (.equality q p)).2 where
  vars v := by
    simp only [variableAt_relate, mem_operands_equality, or_comm]
  others s hs := by rw [relationshipAt_relate_eq, relationshipAt_relate_eq, if_neg hs, if_neg hs]
  here := relationshipAt_relate _ net
  there := relationshipAt_relate _ net

theorem Mirrored.symm (h : Mirrored r p q net net') : Mirrored r q p net' net where
  vars v := (h.vars v).symm
  others s hs := (h.others s hs).symm
  here := h.there
  there := h.here

theorem Mirrored.touches_of (h : Mirrored r p q net net') {s : RelationshipId}
    (ht : net.Touches s v) : net'.Touches s v := by
  by_cases hs : s = r
  · subst hs
    rw [touches_iff_mem h.here] at ht
    rw [touches_iff_mem h.there]
    exact mem_operands_equality.mpr (mem_operands_equality.mp ht).symm
  · obtain ⟨rel, hrel, hv⟩ := ht
    exact ⟨rel, by rw [h.others s hs, hrel], hv⟩

def LeftOnly (net : Network) (R : Set RelationshipId) (r : RelationshipId) (v : VariableId) :
    Prop :=
  ∃ x, net.variableAt v = some x ∧ (x.kind = .intermediate ∧ ¬ x.holding.isPinned) ∧
    (r ∈ x.relationships ∧ r ∉ R) ∧ ∀ s ∈ x.relationships, s ∉ R → s = r

theorem Mirrored.orphaned (h : Mirrored r p q net net') (ho : net.Orphaned R v) :
    net'.Orphaned R v ∨ v = p ∧ net'.LeftOnly R r v := by
  obtain ⟨x, hx, hloose | ⟨hfree, s, rel, hs, hkept, honly, hrel, hresult⟩⟩ := ho
  · exact .inl ⟨x, by rw [h.vars, hx], .inl hloose⟩
  · by_cases hsr : s = r
    · subst hsr
      rw [h.here] at hrel
      cases hrel
      exact .inr ⟨hresult.symm, x, by rw [h.vars, hx], hfree, ⟨hs, hkept⟩, honly⟩
    · exact .inl ⟨x, by rw [h.vars, hx],
        .inr ⟨hfree, s, rel, hs, hkept, honly, by rw [h.others s hsr, hrel], hresult⟩⟩

theorem Mirrored.orphaned_of_leftOnly (h : Mirrored r p q net net')
    (hleft : net'.LeftOnly R r p) : net.Orphaned R p := by
  obtain ⟨x, hx, hfree, hr, honly⟩ := hleft
  exact ⟨x, by rw [← h.vars, hx], .inr ⟨hfree, r, _, hr.1, hr.2, honly, h.here, rfl⟩⟩

theorem Mirrored.attached (h : Mirrored r p q net net')
    (ha : ∀ v ∈ T, ∀ x, net.variableAt v = some x → ∀ s ∈ x.relationships, s ∈ R) :
    ∀ v ∈ T, ∀ x, net'.variableAt v = some x → ∀ s ∈ x.relationships, s ∈ R :=
  fun v hv x hx => ha v hv x (by rw [← h.vars, hx])

theorem Mirrored.closed (h : Mirrored r p q net net') (hc : net.Closed ∅ T R) (hr : r ∈ R) :
    net'.Closed ∅ T R where
  attached := h.attached hc.attached
  orphans s hs v ht hv ho := by
    rcases h.symm.orphaned ho with ho' | ⟨-, x, -, -, hkept, -⟩
    · exact hc.orphans s hs v (h.symm.touches_of ht) hv ho'
    · exact absurd hr hkept.2

section Closures

variable {start start' : Set VariableId}

theorem Mirrored.contains (h : Mirrored r p q net net') (hc : net.OrphanClosure start ∅ ∅ T R)
    (hc' : net'.OrphanClosure start ∅ ∅ T' R') (hr : r ∈ R) : T' ⊆ T ∧ R' ⊆ R :=
  hc'.least T R hc.starts (Set.empty_subset _) (h.closed hc.closed hr)

/-- The equality stays in the first network: then nothing goes there that does not go in the
second. What goes in both is closed in the first, since `p`, of which the equality is left,
does not go. -/
theorem Mirrored.contained (h : Mirrored r p q net net') (hi : net.Integrity)
    (hc : net.OrphanClosure start ∅ ∅ T R) (hc' : net'.OrphanClosure start ∅ ∅ T' R')
    (hr : r ∉ R) : T ⊆ T' ∧ R ⊆ R' := by
  have hp : p ∉ T := by
    intro hp
    have ht : net.Touches r p := ⟨_, h.here, List.mem_cons_self⟩
    obtain ⟨x, hx⟩ := Option.isSome_iff_exists.mp (hi.operand_live r p ht)
    exact hr (hc.closed.attached p hp x hx r ((hi.attached p x hx r).mpr ht))
  have hclosed : net.Closed ∅ (T ∩ T') (R ∩ R') := by
    constructor
    · intro v hv x hx s hs
      exact ⟨hc.closed.attached v hv.1 x hx s hs,
        h.symm.attached hc'.closed.attached v hv.2 x hx s hs⟩
    · intro s hs v ht hv ho
      have hin : v ∈ T := hc.closed.orphans s hs.1 v ht hv (ho.mono Set.inter_subset_left)
      rcases h.orphaned ho with ho' | ⟨rfl, -⟩
      · exact ⟨hin, hc'.closed.orphans s hs.2 v (h.touches_of ht) hv
          (ho'.mono Set.inter_subset_right)⟩
      · exact absurd hin hp
  have hstarts := Set.subset_inter hc.starts hc'.starts
  obtain ⟨hT, hR⟩ := hc.least _ _ hstarts (Set.empty_subset _) hclosed
  exact ⟨fun v hv => (hT hv).2, fun s hs => (hR hs).2⟩

theorem Mirrored.same_iff (h : Mirrored r p q net net') (hi : net.Integrity)
    (hi' : net'.Integrity) (hc : net.OrphanClosure start ∅ ∅ T R)
    (hc' : net'.OrphanClosure start ∅ ∅ T' R') : (T = T' ∧ R = R') ↔ (r ∈ R ↔ r ∈ R') := by
  constructor
  · rintro ⟨-, rfl⟩
    exact Iff.rfl
  · intro hboth
    by_cases hr : r ∈ R
    · have hsub := h.contains hc hc' hr
      have hsup := h.symm.contains hc' hc (hboth.mp hr)
      exact ⟨hsup.1.antisymm hsub.1, hsup.2.antisymm hsub.2⟩
    · have hsub := h.contained hi hc hc' hr
      have hsup := h.symm.contained hi' hc' hc (fun hr' => hr (hboth.mpr hr'))
      exact ⟨hsub.1.antisymm hsup.1, hsub.2.antisymm hsup.2⟩

end Closures

/-- A removal takes something from an intermediate without a pinned value and leaves it one
relationship. -/
def Strands (net after : Network) (r : RelationshipId) (v : VariableId) : Prop :=
  ∃ x y, net.variableAt v = some x ∧ after.variableAt v = some y ∧
    (y.kind = .intermediate ∧ ¬ y.holding.isPinned) ∧ x.relationships ≠ [r] ∧
      y.relationships = [r]

section Stranded

variable {after after' : Network} {start : Set VariableId}

theorem outside_eq_singleton_iff {rs : List RelationshipId}
    (hn : rs.Pairwise fun r s => r.index < s.index) :
    outside R rs = [r] ↔ (r ∈ rs ∧ r ∉ R) ∧ ∀ s ∈ rs, s ∉ R → s = r := by
  have hsorted : (outside R rs).Pairwise fun r s => r.index < s.index := hn.filter _
  rw [eq_singleton_iff hsorted]
  simp only [mem_outside, and_imp]

theorem Collects.strands_iff (h : net.Collects start ∅ ∅ after) (hi : net.Integrity) :
    Strands net after r v ↔ net.LeftOnly (net.lostRelationships after) r v ∧
      ∃ s ∈ net.lostRelationships after, net.Touches s v := by
  constructor
  · intro ⟨x, y, hx, hy, hfree, hmore, hone⟩
    obtain ⟨x', hx', rfl⟩ := h.residue.old_variables v y hy
    rw [hx] at hx'
    cases hx'
    replace hone : outside (net.lostRelationships after) x.relationships = [r] := hone
    refine ⟨⟨x, hx, hfree, (outside_eq_singleton_iff (hi.attached_sorted v x hx)).mp hone⟩, ?_⟩
    by_contra! hnone
    have hall : ∀ s ∈ x.relationships, s ∉ net.lostRelationships after := fun s hs hlost =>
      hnone s hlost ((hi.attached v x hx s).mp hs)
    rw [outside_eq_self hall] at hone
    exact hmore hone
  · intro ⟨⟨x, hx, hfree, hr, honly⟩, s, hlost, ht⟩
    have hs := (hi.attached v x hx s).mpr ht
    have hleft : (after.variableAt v).isSome := by
      rw [← not_mem_lostVariables (by rw [hx]; rfl)]
      exact fun hv => hr.2 (h.closure.closed.attached v hv x hx r hr.1)
    obtain ⟨y, hy⟩ := Option.isSome_iff_exists.mp hleft
    obtain ⟨x', hx', rfl⟩ := h.residue.old_variables v y hy
    rw [hx] at hx'
    cases hx'
    refine ⟨x, _, hx, hy, hfree, ?_,
      (outside_eq_singleton_iff (hi.attached_sorted v x hx)).mpr ⟨hr, honly⟩⟩
    intro hone
    rw [hone, List.mem_singleton] at hs
    exact hr.2 (hs ▸ hlost)

theorem Mirrored.strands_iff (h : Mirrored r p q net net') (hi : net.Integrity)
    (hi' : net'.Integrity) (hc : net.Collects start ∅ ∅ after)
    (hc' : net'.Collects start ∅ ∅ after') :
    Strands net' after' r p ↔
      r ∈ net.lostRelationships after ∧ r ∉ net'.lostRelationships after' := by
  rw [hc'.strands_iff hi']
  constructor
  · intro ⟨hleft, s, hlost, ht⟩
    obtain ⟨x, hx, -, hr, -⟩ := id hleft
    refine ⟨?_, hr.2⟩
    by_contra hkept
    obtain ⟨-, hsame⟩ := (h.same_iff hi hi' hc.closure hc'.closure).mpr (by simp [hkept, hr.2])
    rw [← hsame] at hlost hleft hr
    have hp := hc.closure.closed.orphans s hlost p (h.symm.touches_of ht) (Set.notMem_empty p)
      (h.orphaned_of_leftOnly hleft)
    exact hr.2 (hc.closure.closed.attached p hp x (by rw [← h.vars, hx]) r hr.1)
  · intro ⟨hlost, hkept⟩
    by_contra hno
    -- Without `p` stranded, what goes in the second network is closed in the first.
    have hclosed : net.Closed ∅ (net'.lostVariables after') (net'.lostRelationships after') := by
      refine ⟨h.symm.attached hc'.closure.closed.attached, fun s hs v ht hv ho => ?_⟩
      rcases h.orphaned ho with ho' | ⟨rfl, hleft⟩
      · exact hc'.closure.closed.orphans s hs v (h.touches_of ht) hv ho'
      · exact absurd ⟨hleft, s, hs, h.touches_of ht⟩ hno
    exact hkept ((hc.closure.least _ _ hc'.closure.starts (Set.empty_subset _) hclosed).2 hlost)

theorem Mirrored.closure_of_strands (h : Mirrored r p q net net') (hi : net.Integrity)
    (hi' : net'.Integrity) (hc : net.Collects start ∅ ∅ after)
    (hc' : net'.Collects start ∅ ∅ after') (hs : Strands net' after' r p) :
    net'.OrphanClosure (insert p start) ∅ ∅ (net.lostVariables after)
      (net.lostRelationships after) := by
  obtain ⟨hlost, -⟩ := (h.strands_iff hi hi' hc hc').mp hs
  obtain ⟨hleft, s, hs, ht⟩ := (hc'.strands_iff hi').mp hs
  have hsub := h.contains hc.closure hc'.closure hlost
  obtain ⟨x, hx, -, hr, -⟩ := id hleft
  have hp : p ∈ net.lostVariables after :=
    hc.closure.closed.orphans s (hsub.2 hs) p (h.symm.touches_of ht) (Set.notMem_empty p)
      ((h.orphaned_of_leftOnly hleft).mono hsub.2)
  refine ⟨Set.insert_subset hp hc.closure.starts, Set.empty_subset _,
    h.closed hc.closure.closed hlost, fun T R hstart _ hclosed => ?_⟩
  have hin : r ∈ R := hclosed.attached p (hstart (Set.mem_insert p start)) x hx r hr.1
  exact hc.closure.least T R ((Set.subset_insert p start).trans hstart) (Set.empty_subset _)
    (h.symm.closed hclosed hin)

end Stranded

theorem run_equals_handles (hp : (net.variableAt p).isSome) (hq : (net.variableAt q).isSome) :
    (Build.equals (.handle p) (.handle q)).run net =
      .ok (net.relate (.equality p q)).1 (net.relate (.equality p q)).2 := by
  unfold Build.equals
  rw [run_bind_of_ok (run_resolve_handle hp), run_bind_of_ok (run_resolve_handle hq)]
  rfl

theorem perform_equals_handles (hp : (net.variableAt p).isSome)
    (hq : (net.variableAt q).isSome) :
    net.perform (.equals (.handle p) (.handle q)) =
      ⟨.ok (.relationship ⟨net.relationships.next⟩), (net.relate (.equality p q)).2, []⟩ := by
  show Outcome.ofBuild .relationship _ net = _
  unfold Outcome.ofBuild
  rw [run_equals_handles hp hq]
  rfl

theorem integrity_equality (hi : net.Integrity) (hp : (net.variableAt p).isSome)
    (hq : (net.variableAt q).isSome) : (net.relate (.equality p q)).2.Integrity := by
  apply hi.relate
  intro v hv
  rcases mem_operands_equality.mp hv with rfl | rfl
  · exact hp
  · exact hq

theorem perform_destroyVariable (hi : net.Integrity) (hv : (net.variableAt v).isSome) :
    ∃ after, net.perform (.destroyVariable v) = ⟨.ok (.flag true), after, []⟩ ∧
      net.Collects {v} ∅ ∅ after := by
  obtain ⟨after, he, hc⟩ := collects_destroyVariable hi hv
  exact ⟨after, by simp only [perform, he], hc⟩

/-- An equality of two variables is written either way round, and a variable is destroyed.
The same goes both times unless the equality is all that the one removal leaves of an
intermediate, which the other takes for its result: there this intermediate goes too, and
everything that its own destruction would take along. -/
theorem equality_orientation_decides_stranded_only (hr : Reachable net)
    (hp : (net.variableAt p).isSome) (hq : (net.variableAt q).isSome)
    (hv : (net.variableAt v).isSome) :
    ∃ r one other after after',
      net.perform (.equals (.handle p) (.handle q)) = ⟨.ok (.relationship r), one, []⟩ ∧
      net.perform (.equals (.handle q) (.handle p)) = ⟨.ok (.relationship r), other, []⟩ ∧
      one.perform (.destroyVariable v) = ⟨.ok (.flag true), after, []⟩ ∧
      other.perform (.destroyVariable v) = ⟨.ok (.flag true), after', []⟩ ∧
      ((one.lostVariables after = other.lostVariables after' ∧
          one.lostRelationships after = other.lostRelationships after') ↔
        ¬ Strands other after' r p ∧ ¬ Strands one after r q) ∧
      (Strands other after' r p → other.OrphanClosure {p, v} ∅ ∅ (one.lostVariables after)
        (one.lostRelationships after)) ∧
      (Strands one after r q → one.OrphanClosure {q, v} ∅ ∅ (other.lostVariables after')
        (other.lostRelationships after')) := by
  have hi := integrity_equality hr.integrity hp hq
  have hi' := integrity_equality hr.integrity hq hp
  have h := mirrored_relate net p q
  obtain ⟨after, he, hc⟩ := perform_destroyVariable (v := v) hi (by rwa [isSome_variableAt_relate])
  obtain ⟨after', he', hc'⟩ := perform_destroyVariable (v := v) hi'
    (by rwa [isSome_variableAt_relate])
  refine ⟨_, _, _, after, after', perform_equals_handles hp hq, perform_equals_handles hq hp,
    he, he', ?_, h.closure_of_strands hi hi' hc hc', h.symm.closure_of_strands hi' hi hc' hc⟩
  rw [h.same_iff hi hi' hc.closure hc'.closure, h.strands_iff hi hi' hc hc',
    h.symm.strands_iff hi' hi hc' hc]
  tauto

def unusedProduct : Network := (empty .standard).after [.evaluateText "a * b", .declare "q"]

theorem reachable_unusedProduct : Reachable unusedProduct :=
  ⟨.standard, empty .standard, _, create_standard, rfl⟩

def productForQ : Network := (unusedProduct.perform (.equals (.handle ⟨2⟩) (.handle ⟨3⟩))).network

def qForProduct : Network := (unusedProduct.perform (.equals (.handle ⟨3⟩) (.handle ⟨2⟩))).network

theorem equality_orientation_decides_stranded_only_product :
    Reachable unusedProduct ∧
      ∃ after after', productForQ.perform (.destroyVariable ⟨0⟩) = ⟨.ok (.flag true), after, []⟩ ∧
        qForProduct.perform (.destroyVariable ⟨0⟩) = ⟨.ok (.flag true), after', []⟩ ∧
        Strands qForProduct after' ⟨1⟩ ⟨2⟩ ∧
        qForProduct.OrphanClosure {⟨2⟩, ⟨0⟩} ∅ ∅ (productForQ.lostVariables after)
          (productForQ.lostRelationships after) := by
  obtain ⟨r, one, other, after, after', hone, hother, hafter, hafter', -, hclosure, -⟩ :=
    equality_orientation_decides_stranded_only (p := ⟨2⟩) (q := ⟨3⟩) (v := ⟨0⟩)
      reachable_unusedProduct rfl rfl rfl
  have hfirst : productForQ = one := congrArg Outcome.network hone
  have hsecond : qForProduct = other := congrArg Outcome.network hother
  subst hfirst hsecond
  have hr : r = ⟨1⟩ := by
    have hanswer := congrArg Outcome.result hone
    cases hanswer
    rfl
  have hleft : (qForProduct.perform (.destroyVariable ⟨0⟩)).network = after' :=
    congrArg Outcome.network hafter'
  have hstrands : Strands qForProduct after' ⟨1⟩ ⟨2⟩ :=
    hleft ▸ ⟨_, _, rfl, rfl, ⟨rfl, by decide +kernel⟩, by decide +kernel, rfl⟩
  exact ⟨reachable_unusedProduct, after, after', hafter, hafter', hstrands,
    hclosure (hr ▸ hstrands)⟩

/-- So the way round in which an equality is written shows when `a` is destroyed: the product
and `q` go in one network and stay in the other, and the equality with them. -/
theorem equality_orientation_changes_teardown :
    Reachable unusedProduct ∧
      (productForQ.perform (.destroyVariable ⟨0⟩)).network.lookup "q" = none ∧
      (qForProduct.perform (.destroyVariable ⟨0⟩)).network.lookup "q" = some ⟨3⟩ ∧
      productForQ.lostVariables (productForQ.perform (.destroyVariable ⟨0⟩)).network ≠
        qForProduct.lostVariables (qForProduct.perform (.destroyVariable ⟨0⟩)).network ∧
      productForQ.lostRelationships (productForQ.perform (.destroyVariable ⟨0⟩)).network ≠
        qForProduct.lostRelationships (qForProduct.perform (.destroyVariable ⟨0⟩)).network := by
  refine ⟨reachable_unusedProduct, rfl, rfl, fun hsame => ?_, fun hsame => ?_⟩
  · have hlost : (⟨3⟩ : VariableId) ∈
        productForQ.lostVariables (productForQ.perform (.destroyVariable ⟨0⟩)).network :=
      ⟨rfl, rfl⟩
    rw [hsame] at hlost
    cases hlost.2
  · have hlost : (⟨1⟩ : RelationshipId) ∈
        productForQ.lostRelationships (productForQ.perform (.destroyVariable ⟨0⟩)).network :=
      ⟨rfl, rfl⟩
    rw [hsame] at hlost
    cases hlost.2

end Network

end ConstraintNet
