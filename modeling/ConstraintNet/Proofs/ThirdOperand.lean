import Mathlib.Logic.Function.Basic
import ConstraintNet.Proofs.Rederivation
import ConstraintNet.Proofs.SinglePass
import ConstraintNet.Proofs.Tolerance

/-!
# Two operands determine the third

A network with one arithmetic relationship, of which one operand is unknown, derives that
operand in the first pass of a fresh digest. The second pass derives the result from both
operands again and compares it with what is held.
-/

set_option autoImplicit false

namespace ConstraintNet

open Network

variable {d : Digest} {run run' : Run} {r : RelationshipId} {v t : VariableId} {value : Float}
  {x : Variable} {outcome : Option Fault}

theorem Cascade.passes_over {rs : List RelationshipId}
    (h : Cascade d (.each true rs) run outcome run')
    (hm : ∀ s ∈ rs, run.network.IsMarked d s) : outcome = none ∧ run' = run := by
  induction rs with
  | nil =>
    cases h
    exact ⟨rfl, rfl⟩
  | cons s rs ih =>
    rw [List.forall_mem_cons] at hm
    cases h with
    | skips _ h => exact ih h hm.2
    | turns hg | stops hg => exact absurd hm.1 (hg rfl)

theorem Cascade.stores_only (h : Cascade d (.write v value) run outcome run')
    (hx : run.network.variableAt v = some x) (hu : x.holding.valueAt d = none)
    (hm : ∀ s ∈ x.relationships, run.network.IsMarked d s) :
    outcome = none ∧ run' = run.store d v x value := by
  cases h with
  | unknown hx' =>
    rw [hx] at hx'
    cases hx'
  | contradicts hx' hh | agrees hx' hh =>
    rw [hx] at hx'
    cases hx'
    rw [hu] at hh
    cases hh
  | stores hx' _ h =>
    rw [hx] at hx'
    cases hx'
    exact h.passes_over hm

namespace Relation

variable {known : VariableId → Option Float}

/-- With all operands known, a relation says nothing, or something that is within the default
tolerance of what is held. -/
def Agrees (relation : Relation) (known : VariableId → Option Float) : Prop :=
  relation.derive known = .ok .pending ∨
    ∃ t value held, relation.derive known = .ok (.derived t value) ∧ known t = some held ∧
      (held - value).abs ≤ Config.defaultTolerance

theorem agrees_of_result {relation : Relation}
    (hd : relation.derive known = .ok (.derived relation.result value))
    (ht : known relation.result = none) :
    relation.Agrees (Function.update known relation.result (some value)) := by
  have hk : ∀ v ∈ relation.arguments, (known v).isSome := by
    by_contra hn
    have hmissing : ∃ v ∈ relation.arguments, known v = none := by simpa using hn
    rw [derive_waits hmissing ht] at hd
    cases hd
  have hsame : ∀ v ∈ relation.arguments,
      known v = Function.update known relation.result (some value) v := by
    intro v hv
    have hne : v ≠ relation.result := by
      rintro rfl
      have hsome := hk _ hv
      rw [ht] at hsome
      cases hsome
    rw [Function.update_of_ne hne]
  refine .inr ⟨relation.result, value, value, ?_, Function.update_self .., ?_⟩
  · rw [← derive_forward_congr hk hsame, hd]
  · exact @abs_sub_self_le .standard rfl value (isFinite_of_derive hd)

section Arithmetic

variable {op : Operator} {result left right : VariableId} {held other : Float}

theorem agrees_of_forward (hleft : known left = some value) (hright : known right = some other)
    (hresult : known result = some held)
    (h : ∃ again, op.forward result value other = .ok (.derived result again) ∧
      again.isFinite ∧ (held - again).abs ≤ Config.defaultTolerance) :
    (Relation.arithmetic op result left right).Agrees known := by
  obtain ⟨again, hforward, hfinite, hle⟩ := h
  refine .inr ⟨result, again, held, ?_, hresult, hle⟩
  simp only [derive, solve, hleft, hright, hforward, hfinite, if_true]

theorem ne_of_unknown {v w : VariableId} {u : Float} (hv : known v = some u)
    (hw : known w = none) : v ≠ w := by
  rintro rfl
  rw [hw] at hv
  cases hv

theorem agrees_of_left
    (hd : (Relation.arithmetic op result left right).derive known = .ok (.derived left value))
    (ht : known left = none) (hresult : known result = some held) (hheld : held.isFinite)
    (hright : known right = some other) (hother : other.isFinite)
    (hg : op.Gentle held other other) :
    (Relation.arithmetic op result left right).Agrees
      (Function.update known left (some value)) := by
  have hsolve : op.solveLeft left held other = .ok (.derived left value) := by
    simpa only [solve, ht, hright, hresult] using solve_of_derive hd
  refine agrees_of_forward (Function.update_self ..) ?_ ?_
    (Operator.forward_solveLeft hheld hother (isFinite_of_derive hd) hsolve hg)
  · rw [Function.update_of_ne (ne_of_unknown hright ht), hright]
  · rw [Function.update_of_ne (ne_of_unknown hresult ht), hresult]

theorem agrees_of_right
    (hd : (Relation.arithmetic op result left right).derive known = .ok (.derived right value))
    (ht : known right = none) (hresult : known result = some held) (hheld : held.isFinite)
    (hleft : known left = some other) (hother : other.isFinite)
    (hg : op.Gentle held other value) :
    (Relation.arithmetic op result left right).Agrees
      (Function.update known right (some value)) := by
  have hsolve : op.solveRight right held other = .ok (.derived right value) := by
    simpa only [solve, ht, hleft, hresult] using solve_of_derive hd
  refine agrees_of_forward ?_ (Function.update_self ..) ?_
    (Operator.forward_solveRight hheld hother (isFinite_of_derive hd) hsolve hg)
  · rw [Function.update_of_ne (ne_of_unknown hleft ht), hleft]
  · rw [Function.update_of_ne (ne_of_unknown hresult ht), hresult]

end Arithmetic

end Relation

namespace Network

variable {net net' : Network} {relation : Relation} {known : VariableId → Option Float}

/-- The settings are the standard ones and there is one relationship. -/
structure Lone (net : Network) (r : RelationshipId) (relation : Relation) : Prop where
  config : net.config = .standard
  order : net.order = [r]
  relation : ∃ marker, net.relationshipAt r = some ⟨relation, marker⟩

theorem Lone.eq_of_live (hl : net.Lone r relation) (hi : net.Integrity) {s : RelationshipId}
    (hs : (net.relationshipAt s).isSome) : s = r := by
  have hmem := (hi.mem_order s).mpr hs
  rw [hl.order] at hmem
  exact List.mem_singleton.mp hmem

theorem Lone.relation_eq (hl : net.Lone r relation) {rel : Relationship}
    (hr : net.relationshipAt r = some rel) : rel.relation = relation := by
  obtain ⟨marker, hrel⟩ := hl.relation
  rw [hrel] at hr
  cases hr
  rfl

theorem isMarked_mark_self {rel : Relationship} (hr : net.relationshipAt r = some rel) :
    (net.updateRelationship r (·.mark (some d))).IsMarked d r := by
  rw [isMarked_mark hr, if_pos rfl]
  exact decide_eq_true rfl

theorem Lone.turn (hl : run.network.Lone r relation) (hi : run.network.Integrity)
    (hd : relation.derive (run.network.valueAt d) = .ok (.derived t value))
    (ht : run.network.valueAt d t = none) (h : Cascade d (.solve r) run outcome run') :
    outcome = none ∧ ∃ x, run.network.variableAt t = some x ∧
      run' = (run.mark r (some d)).store d t x value := by
  obtain ⟨marker, hrel⟩ := hl.relation
  have htouches : run.network.Touches r t := ⟨_, hrel, (Relation.derive_target hd).1⟩
  obtain ⟨x, hx⟩ := Option.isSome_iff_exists.mp (hi.operand_live r t htouches)
  have hmarked : ∀ s ∈ x.relationships, (run.mark r (some d)).network.IsMarked d s := by
    intro s hs
    obtain ⟨rel, hlive, -⟩ := (hi.attached t x hx s).mp hs
    obtain rfl := hl.eq_of_live hi (by rw [hlive]; rfl)
    exact isMarked_mark_self hrel
  have hwrite {outcome : Option Fault} {run' : Run}
      (h : Cascade d (.write t value) (run.mark r (some d)) outcome run') :
      outcome = none ∧ run' = (run.mark r (some d)).store d t x value :=
    h.stores_only hx ((valueAt_eq hx).symm.trans ht) hmarked
  cases h with
  | absent hr =>
    rw [hrel] at hr
    cases hr
  | waits hr hd' | refuses hr hd' =>
    rw [hl.relation_eq hr, hd] at hd'
    cases hd'
  | derives hr hd' h =>
    rw [hl.relation_eq hr, hd] at hd'
    cases hd'
    exact ⟨rfl, x, hx, (hwrite h).2⟩
  | restores hr hd' h =>
    rw [hl.relation_eq hr, hd] at hd'
    cases hd'
    cases (hwrite h).1

/-- What the first pass leaves: the relationship is marked and there is nothing to derive. -/
structure Completed (net : Network) (d : Digest) (r : RelationshipId)
    (known : VariableId → Option Float) (net' : Network) : Prop where
  advance : Advance d net net'
  inert : net'.Inert d
  marked : net'.IsMarked d r
  known : net'.valueAt d = known

theorem Lone.first_pass (hl : run.network.Lone r relation) (hi : run.network.Integrity)
    (hf : run.network.Fresh d)
    (hd : relation.derive (run.network.valueAt d) = .ok (.derived t value))
    (ht : run.network.valueAt d t = none) (h : Passes d run outcome run') :
    outcome = none ∧ Completed run.network d r
      (Function.update (run.network.valueAt d) t (some value)) run'.network := by
  obtain ⟨marker, hrel⟩ := hl.relation
  have hadvance := h.advance
  have hturn := h
  unfold Passes at hturn
  rw [hl.order] at hturn
  cases hturn with
  | stops _ hs => cases (hl.turn hi hd ht hs).1
  | turns _ hs hrest =>
    obtain ⟨-, x, hx, rfl⟩ := hl.turn hi hd ht hs
    cases hrest
    refine ⟨rfl, hadvance, Passes.inert h hi hf, ?_, funext fun w => ?_⟩
    · change (run.mark r (some d)).network.IsMarked d r
      exact isMarked_mark_self hrel
    · have hx' : (run.mark r (some d)).network.variableAt t = some x := hx
      rw [Function.update_apply, Run.store, valueAt_store hx']
      simp only [eq_comm]
      rfl

theorem Lone.advance (hl : net.Lone r relation) (h : Advance d net net') :
    net'.Lone r relation where
  config := h.config.trans hl.config
  order := h.order.trans hl.order
  relation := by
    obtain ⟨marker, hrel⟩ := hl.relation
    obtain ⟨rel', hrel', rfl | rfl⟩ := h.relationship_some hrel
    · exact ⟨marker, hrel'⟩
    · exact ⟨some d, hrel'⟩

theorem Lone.allConsistent (hl : net.Lone r relation) (hi : net.Integrity)
    (ha : relation.Agrees (net.valueAt d)) : net.AllConsistent d := by
  intro s rel hrel
  obtain rfl := hl.eq_of_live hi (by rw [hrel]; rfl)
  unfold Consistent
  rw [hl.config, hl.relation_eq hrel]
  exact ha

theorem Lone.agrees (hl : run.network.Lone r relation) (hs : run.network.Inert d)
    (hm : run.network.IsMarked d r) (h : Passes d run none run') :
    relation.Agrees (run.network.valueAt d) := by
  obtain ⟨marker, hrel⟩ := hl.relation
  have hk := (hs r _ hrel).1 ((isMarked_eq hrel).symm.trans hm)
  unfold Passes at h
  rw [hl.order] at h
  cases h with
  | turns _ h _ =>
    have hconsistent := h.consistent hrel hk
    unfold Consistent at hconsistent
    rwa [hl.config] at hconsistent

theorem Lone.passed (hl : run.network.Lone r relation) (hi : run.network.Integrity)
    (hf : run.network.Fresh d)
    (hd : relation.derive (run.network.valueAt d) = .ok (.derived t value))
    (ht : run.network.valueAt d t = none) (h : Passed d run run') :
    run' = run ∨ Completed run.network d r
      (Function.update (run.network.valueAt d) t (some value)) run'.network := by
  induction h with
  | refl => exact .inl rfl
  | tail _ hp ih =>
    right
    rcases ih with rfl | hdone
    · exact (hl.first_pass hi hf hd ht hp).2
    · obtain ⟨rfl, -⟩ := Cascade.inert_each hp hdone.inert
      exact hdone

theorem Lone.solvedCount (hl : net.Lone r relation) (d : Digest) :
    net.solvedCount d = if net.IsMarked d r then 1 else 0 := by
  have hcount : net.solvedCount d = net.order.countP (net.IsMarked d) := rfl
  rw [hcount, hl.order, List.countP_singleton]

def Resolves (net : Network) (d : Digest) : Prop :=
  ∃ report, (net.perform (.solve d)).result = .ok (.report report) ∧ report.pending = 0

theorem Lone.solve (hr : Reachable net) (hl : net.Lone r relation) (hf : net.Fresh d)
    (hd : relation.derive (net.valueAt d) = .ok (.derived t value))
    (ht : net.valueAt d t = none) :
    (net.perform (.solve d)).network.valueAt d =
        Function.update (net.valueAt d) t (some value) ∧
      (net.Resolves d ↔
        relation.Agrees (Function.update (net.valueAt d) t (some value))) := by
  have hi : (Propagation.start d ⟨net, []⟩).network.Integrity :=
    (SameGraph.of_counters net net.functions _).integrity hr.integrity
  have hstart : (Propagation.start d ⟨net, []⟩).network.Lone r relation :=
    ⟨hl.config, hl.order, hl.relation⟩
  have hfresh : (Propagation.start d ⟨net, []⟩).network.Fresh d := ⟨hf.unsolved, hf.unmarked⟩
  unfold Resolves
  rcases net.perform_solve d with ⟨report, run', hp, h⟩ | ⟨fault, run', hp, mid, hpre, hlast⟩
  · obtain ⟨mid, hpre, hlast, hcount⟩ := h.passed
    rcases hstart.passed hi hfresh hd ht hpre with rfl | hdone
    · -- A first pass that marks the relationship is not the last one.
      have hdone := (hstart.first_pass hi hfresh hd ht hlast).2
      have hfixpoint : net.config.fixpoint := by rw [hl.config]; rfl
      have hsolved := hcount hfixpoint
      rw [hfresh.solvedCount, (hstart.advance hdone.advance).solvedCount, if_pos hdone.marked]
        at hsolved
      cases hsolved
    · obtain ⟨rfl, -⟩ := Cascade.inert_each hlast hdone.inert
      have hlone := hstart.advance hdone.advance
      have hagrees := hlone.agrees hdone.inert hdone.marked hlast
      rw [hp]
      refine ⟨hdone.known, iff_of_true ⟨report, rfl, ?_⟩ (hdone.known ▸ hagrees)⟩
      rw [h.pending, hlone.solvedCount, if_pos hdone.marked, hlone.order]
      rfl
  · rcases hstart.passed hi hfresh hd ht hpre with rfl | hdone
    · cases (hstart.first_pass hi hfresh hd ht hlast).1
    · obtain ⟨rfl, hnone⟩ := Cascade.inert_each hlast hdone.inert
      have hlone := hstart.advance hdone.advance
      have hconsistent := hlone.allConsistent (d := d) (hdone.advance.integrity hi)
      rw [hdone.known] at hconsistent
      rw [hp]
      refine ⟨hdone.known, iff_of_false (fun ⟨_, h, _⟩ => by cases h) fun hagrees => ?_⟩
      cases hnone (hconsistent hagrees)

theorem Reachable.finite (hr : Reachable net) (hv : net.valueAt d v = some value) :
    value.isFinite := by
  cases hx : net.variableAt v with
  | none => simp [valueAt, hx] at hv
  | some x =>
    rw [valueAt_eq hx] at hv
    exact (hr.wellHeld.held v x hx).finite (Holding.value?_of_valueAt hv)

section Arithmetic

variable {op : Operator} {result left right : VariableId}

/-- A network with one arithmetic relationship, under the standard settings, of which one
operand is unknown in a fresh digest and derived from the others. Solving the digest puts
the derived value into the operand. It answers with nothing pending exactly if the two
operands then say nothing of the result, or give a value within the tolerance of the one
it holds. They do if the result was what was missing, and otherwise as long as the values
are gentle. -/
theorem two_operands_determine_third (hr : Reachable net)
    (hl : net.Lone r (.arithmetic op result left right)) (hf : net.Fresh d)
    (hd : (Relation.arithmetic op result left right).derive (net.valueAt d) =
      .ok (.derived t value)) (ht : net.valueAt d t = none) :
    let after := Function.update (net.valueAt d) t (some value)
    (net.perform (.solve d)).network.valueAt d = after ∧
    (net.Resolves d ↔ (Relation.arithmetic op result left right).Agrees after) ∧
    (t = result → net.Resolves d) ∧
    (∀ held known, t = left → net.valueAt d result = some held →
      net.valueAt d right = some known → op.Gentle held known known → net.Resolves d) ∧
    ∀ held known, t = right → net.valueAt d result = some held →
      net.valueAt d left = some known → op.Gentle held known value → net.Resolves d := by
  intro after
  obtain ⟨hafter, hresolves⟩ := hl.solve hr hf hd ht
  refine ⟨hafter, hresolves, ?_, ?_, ?_⟩
  · rintro rfl
    exact hresolves.mpr (Relation.agrees_of_result hd ht)
  · rintro held known rfl hresult hright hg
    exact hresolves.mpr (Relation.agrees_of_left hd ht hresult (hr.finite hresult) hright
      (hr.finite hright) hg)
  · rintro held known rfl hresult hleft hg
    exact hresolves.mpr (Relation.agrees_of_right hd ht hresult (hr.finite hresult) hleft
      (hr.finite hleft) hg)

end Arithmetic

def summand (b : Float) : Network :=
  (empty .standard).after
    [.arithmetic .add (.name "c") (.name "a") (.name "b"), .assign "c" 1, .assign "b" b]

theorem reachable_summand (b : Float) : Reachable (summand b) :=
  ⟨.standard, empty .standard, _, create_standard, rfl⟩

theorem two_operands_determine_third_summand :
    let sum := Relation.arithmetic .add ⟨0⟩ ⟨1⟩ ⟨2⟩
    Reachable (summand 5) ∧ (summand 5).Lone ⟨0⟩ sum ∧ (summand 5).Fresh 1 ∧
      sum.derive ((summand 5).valueAt 1) = .ok (.derived ⟨1⟩ (-4)) ∧
      (summand 5).valueAt 1 ⟨1⟩ = none ∧
      ((summand 5).perform (.solve 1)).network.valueAt 1 ⟨1⟩ = some (-4) ∧
      (summand 5).Resolves 1 := by
  intro sum
  have hr := reachable_summand 5
  have hl : (summand 5).Lone ⟨0⟩ sum := ⟨rfl, rfl, none, rfl⟩
  have hf : (summand 5).Fresh 1 := hr.wellHeld.fresh (by decide +kernel)
  have hd : sum.derive ((summand 5).valueAt 1) = .ok (.derived ⟨1⟩ (-4)) := rfl
  have ht : (summand 5).valueAt 1 ⟨1⟩ = none := rfl
  obtain ⟨hafter, -, -, hleft, -⟩ := two_operands_determine_third hr hl hf hd ht
  have hgentle : Operator.add.Gentle 1 5 5 := ⟨by decide +kernel, by decide +kernel⟩
  refine ⟨hr, hl, hf, hd, ht, ?_, hleft 1 5 rfl rfl rfl hgentle⟩
  rw [hafter, Function.update_self]

/-- The operand that is derived from a large one has lost the result, which the second pass
finds to be zero. -/
theorem two_operands_contradict_themselves :
    let sum := Relation.arithmetic .add ⟨0⟩ ⟨1⟩ ⟨2⟩
    Reachable (summand 1e17) ∧ (summand 1e17).Lone ⟨0⟩ sum ∧ (summand 1e17).Fresh 1 ∧
      sum.derive ((summand 1e17).valueAt 1) = .ok (.derived ⟨1⟩ (-1e17)) ∧
      (summand 1e17).valueAt 1 ⟨1⟩ = none ∧
      ((summand 1e17).perform (.solve 1)).result.isOk = false ∧
      ¬ (summand 1e17).Resolves 1 := by
  intro sum
  have hr := reachable_summand 1e17
  have hfails : ((summand 1e17).perform (.solve 1)).result.isOk = false := by decide +kernel
  refine ⟨hr, ⟨rfl, rfl, none, rfl⟩, hr.wellHeld.fresh (by decide +kernel), rfl, rfl, hfails, ?_⟩
  rintro ⟨report, h, -⟩
  rw [h] at hfails
  cases hfails

end Network

end ConstraintNet
