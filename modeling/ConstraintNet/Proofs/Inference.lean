import Mathlib.Data.List.Perm.Basic
import Mathlib.Logic.Equiv.Basic
import Mathlib.Order.Bounds.Basic
import ConstraintNet.Proofs.SinglePass

/-!
# Which variables a digest comes to know

A relation that never divides always has something to say once enough of its operands
are known. Where all relations are of that kind, the variables known in a digest can be
told without running anything: they are the least set that holds what is pinned and that
no relation can add to. The order of the relationships plays no part in it.
-/

set_option autoImplicit false

namespace ConstraintNet

variable {v t : VariableId} {value : Float} {S T : Set VariableId}

namespace Relation

variable {known : VariableId → Option Float}

def Additive : Relation → Prop
  | .arithmetic op _ _ _ => op = .add ∨ op = .sub
  | .equality _ _ | .custom _ _ _ _ => True

/-- With the variables of a set known the relation makes another one known: the other
side of an equality, the only missing position of an operation, the output of a call. -/
def Infers (S : Set VariableId) (v : VariableId) : Relation → Prop
  | .equality left right => left ∈ S ∧ v = right ∨ right ∈ S ∧ v = left
  | .arithmetic _ result left right => v ∉ S ∧
      (v = result ∧ left ∈ S ∧ right ∈ S ∨ v = left ∧ result ∈ S ∧ right ∈ S ∨
        v = right ∧ result ∈ S ∧ left ∈ S)
  | .custom _ _ inputs output => (∀ w ∈ inputs, w ∈ S) ∧ v = output

theorem Infers.mono {r : Relation} (h : r.Infers S v) (hsub : S ⊆ T) (hv : v ∉ T) :
    r.Infers T v := by
  cases r with
  | equality left right => exact h.imp (.imp_left fun hl => hsub hl) (.imp_left fun hr => hsub hr)
  | arithmetic op result left right =>
    refine ⟨hv, h.2.imp ?_ (.imp ?_ ?_)⟩
    · exact fun ⟨he, hl, hr⟩ => ⟨he, hsub hl, hsub hr⟩
    · exact fun ⟨he, ho, hr⟩ => ⟨he, hsub ho, hsub hr⟩
    · exact fun ⟨he, ho, hl⟩ => ⟨he, hsub ho, hsub hl⟩
  | custom name function inputs output => exact ⟨fun w hw => hsub (h.1 w hw), h.2⟩

theorem Infers.mem_operands {r : Relation} (h : r.Infers S v) : v ∈ r.operands := by
  cases r with
  | equality left right => rcases h with ⟨-, rfl⟩ | ⟨-, rfl⟩ <;> simp [operands, result, arguments]
  | arithmetic op result left right =>
    rcases h with ⟨-, ⟨rfl, -⟩ | ⟨rfl, -⟩ | ⟨rfl, -⟩⟩ <;>
      simp [operands, Relation.result, arguments]
  | custom name function inputs output =>
    rw [h.2]
    exact result_mem_operands _

theorem infers_of_derive {r : Relation} (h : r.derive known = .ok (.derived t value))
    (ht : known t = none) : r.Infers {v | (known v).isSome} t := by
  have hunknown : t ∉ {v | (known v).isSome} := by simp [ht]
  replace h := solve_of_derive h
  cases r with
  | equality left right =>
    simp only [solve] at h
    cases hr : known right with
    | some b =>
      simp only [hr, Except.ok.injEq, Derivation.derived.injEq] at h
      exact .inr ⟨by simp [hr], h.1.symm⟩
    | none =>
      cases hl : known left with
      | some a =>
        simp only [hl, hr, Except.ok.injEq, Derivation.derived.injEq] at h
        exact .inl ⟨by simp [hl], h.1.symm⟩
      | none => simp [hl, hr] at h
  | arithmetic op result left right =>
    refine ⟨hunknown, ?_⟩
    simp only [solve] at h
    cases hl : known left with
    | some a =>
      cases hr : known right with
      | some b =>
        simp only [hl, hr] at h
        exact .inl ⟨Operator.forward_target h, by simp [hl], by simp [hr]⟩
      | none =>
        cases ho : known result with
        | some c =>
          simp only [hl, hr, ho] at h
          exact .inr (.inr ⟨Operator.solveRight_target h, by simp [ho], by simp [hl]⟩)
        | none => simp [hl, hr, ho] at h
    | none =>
      cases hr : known right with
      | some b =>
        cases ho : known result with
        | some c =>
          simp only [hl, hr, ho] at h
          exact .inr (.inl ⟨Operator.solveLeft_target h, by simp [ho], by simp [hr]⟩)
        | none => simp [hl, hr, ho] at h
      | none => simp [hl, hr] at h
  | custom name function inputs output =>
    simp only [solve] at h
    cases ha : allKnown known inputs with
    | none => simp [ha] at h
    | some values =>
      simp only [ha, Except.ok.injEq, Derivation.derived.injEq] at h
      exact ⟨isSome_allKnown.mp (by rw [ha]; rfl), h.1.symm⟩

theorem solve_of_pending {r : Relation} (h : r.derive known = .ok .pending) :
    r.solve known = .ok .pending := by
  unfold derive at h
  split at h
  · split at h <;> cases h
  · exact h

theorem Additive.not_infers {r : Relation} (ha : r.Additive)
    (h : r.derive known = .ok .pending) (hv : known v = none) :
    ¬ r.Infers {v | (known v).isSome} v := by
  intro hinfers
  replace h := solve_of_pending h
  cases r with
  | equality left right =>
    simp only [solve] at h
    rcases hinfers with ⟨hl, -⟩ | ⟨hr, -⟩
    · obtain ⟨a, hl⟩ := Option.isSome_iff_exists.mp hl
      cases hr : known right <;> simp [hl, hr] at h
    · obtain ⟨b, hr⟩ := Option.isSome_iff_exists.mp hr
      simp [hr] at h
  | arithmetic op result left right =>
    simp only [solve] at h
    obtain ⟨-, ⟨rfl, hl, hr⟩ | ⟨rfl, ho, hr⟩ | ⟨rfl, ho, hl⟩⟩ := hinfers
    · obtain ⟨a, hl⟩ := Option.isSome_iff_exists.mp hl
      obtain ⟨b, hr⟩ := Option.isSome_iff_exists.mp hr
      rcases ha with rfl | rfl <;> simp [hl, hr, Operator.forward] at h
    · obtain ⟨c, ho⟩ := Option.isSome_iff_exists.mp ho
      obtain ⟨b, hr⟩ := Option.isSome_iff_exists.mp hr
      rcases ha with rfl | rfl <;> simp [hv, ho, hr, Operator.solveLeft] at h
    · obtain ⟨c, ho⟩ := Option.isSome_iff_exists.mp ho
      obtain ⟨a, hl⟩ := Option.isSome_iff_exists.mp hl
      rcases ha with rfl | rfl <;> simp [hv, ho, hl, Operator.solveRight] at h
  | custom name function inputs output =>
    simp only [solve] at h
    obtain ⟨values, hall⟩ := Option.isSome_iff_exists.mp (isSome_allKnown.mpr hinfers.1)
    simp [hall] at h

end Relation

namespace Network

variable {net net' : Network} {d : Digest}

def knowledge (net : Network) (d : Digest) : Set VariableId := {v | (net.valueAt d v).isSome}

def pinned (net : Network) : Set VariableId :=
  {v | (net.variableAt v).any (·.holding.isPinned)}

/-- No relation of the network infers anything new from a set. -/
def ClosedUnder (net : Network) (S : Set VariableId) : Prop :=
  ∀ r rel, net.relationshipAt r = some rel → ∀ v, rel.relation.Infers S v → v ∈ S

structure Saturated (net : Network) (S : Set VariableId) : Prop where
  pinned : net.pinned ⊆ S
  inferred : net.ClosedUnder S

def Additive (net : Network) : Prop :=
  ∀ r rel, net.relationshipAt r = some rel → rel.relation.Additive

theorem ClosedUnder.sameGraph (h : net.ClosedUnder S) (hs : SameGraph net net') :
    net'.ClosedUnder S := by
  intro r rel' hr' v hv
  obtain ⟨rel, hr, he⟩ := hs.relationship_some hr'
  exact h r rel hr v (he ▸ hv)

theorem Additive.sameGraph (h : net.Additive) (hs : SameGraph net net') : net'.Additive := by
  intro r rel' hr'
  obtain ⟨rel, hr, he⟩ := hs.relationship_some hr'
  rw [he]
  exact h r rel hr

theorem Advance.knowledge_subset (h : Advance d net net') : net.knowledge d ⊆ net'.knowledge d :=
  fun _ hv => h.isSome_known hv

theorem Fresh.knowledge_eq (hf : net.Fresh d) : net.knowledge d = net.pinned := by
  ext v
  cases hx : net.variableAt v with
  | none => simp [knowledge, pinned, valueAt, hx]
  | some x =>
    have hholding := hf.valueAt_holding hx
    cases hh : x.holding <;>
      simp_all [knowledge, pinned, valueAt_eq hx, Holding.isPinned, Holding.value?]

theorem ClosedUnder.target_mem (hc : net.ClosedUnder S) (hk : net.knowledge d ⊆ S)
    {r : RelationshipId} {rel : Relationship} (hr : net.relationshipAt r = some rel)
    (hd : rel.relation.derive (net.valueAt d) = .ok (.derived t value)) : t ∈ S := by
  by_contra ht
  have hunknown : net.valueAt d t = none := by
    rw [← Option.not_isSome_iff_eq_none]
    exact fun hsome => ht (hk hsome)
  exact ht (hc r rel hr t ((Relation.infers_of_derive hd hunknown).mono hk ht))

/-- Where nothing is left to derive, nothing is left to infer. -/
theorem Inert.closedUnder (hs : net.Inert d) (ha : net.Additive) :
    net.ClosedUnder (net.knowledge d) := by
  intro r rel hr v hv
  by_contra hn
  have hunknown : net.valueAt d v = none := Option.not_isSome_iff_eq_none.mp hn
  by_cases hm : rel.isMarked d
  · exact hn ((hs r rel hr).1 hm v hv.mem_operands)
  · exact (ha r rel hr).not_infers ((hs r rel hr).2 hm) hunknown hv

end Network

open Network

variable {d : Digest} {run run' : Run}

def Task.Within (S : Set VariableId) : Task → Prop
  | .write v _ => v ∈ S
  | .solve _ | .each _ _ => True

theorem Cascade.within {task : Task} {outcome : Option Fault}
    (h : Cascade d task run outcome run') (hc : run.network.ClosedUnder S)
    (hk : run.network.knowledge d ⊆ S) (hw : task.Within S) : run'.network.knowledge d ⊆ S := by
  induction h with
  | unknown => exact hk
  | contradicts => exact hk
  | agrees => exact hk
  | @stores run run' v value x outcome hx hu _ ih =>
    refine ih (hc.sameGraph (advance_store hx hu value).sameGraph) ?_ trivial
    intro w hknown
    rw [knowledge, Set.mem_ofPred_eq, Run.store, valueAt_store hx] at hknown
    by_cases hvw : v = w
    · exact hvw ▸ hw
    · rw [if_neg hvw] at hknown
      exact hk hknown
  | absent => exact hk
  | waits => exact hk
  | refuses => exact hk
  | derives hr hd _ ih | restores hr hd _ ih =>
    exact ih (hc.sameGraph (advance_mark hr).sameGraph) hk (hc.target_mem hk hr hd)
  | done => exact hk
  | skips _ _ ih => exact ih hc hk trivial
  | turns _ h _ ih ih' => exact ih' (hc.sameGraph h.advance.sameGraph) (ih hc hk trivial) trivial
  | stops _ _ ih => exact ih hc hk trivial

theorem Passed.within (h : Passed d run run') (hc : run.network.ClosedUnder S)
    (hk : run.network.knowledge d ⊆ S) : run'.network.knowledge d ⊆ S := by
  induction h with
  | refl => exact hk
  | tail hpre hlast ih =>
    exact hlast.within (hc.sameGraph (Passed.advance hpre).sameGraph) ih trivial

namespace Network

variable {net net' : Network} {d' : Digest}

/-- Solving a fresh digest with an answer comes to know the least saturated set. -/
theorem knowledge_isLeast (hi : net.Integrity) (hf : net.Fresh d) (ha : net.Additive)
    (h : (net.perform (.solve d)).result.isOk) :
    IsLeast {S | net.Saturated S} ((net.perform (.solve d)).network.knowledge d) := by
  rcases net.perform_solve d with ⟨report, run', hp, hanswered⟩ | ⟨fault, run', hp, -⟩
  · rw [hp]
    obtain ⟨mid, hpre, hlast, -⟩ := hanswered.passed
    have hs : SameGraph net (Propagation.start d ⟨net, []⟩).network :=
      SameGraph.of_counters net net.functions _
    have hadv := (Passed.advance hpre).trans hlast.advance
    have hsame := hs.trans hadv.sameGraph
    constructor
    · have hground : (Propagation.start d ⟨net, []⟩).network.Grounded d fun _ => False :=
        fun r hm => absurd hm (hf.not_isMarked r)
      have hinert : run'.network.Inert d :=
        hlast.inert_of_grounded ((Passed.advance hpre).integrity (hs.integrity hi))
          (Passed.grounded hpre hground)
      refine ⟨?_, (hinert.closedUnder (ha.sameGraph hsame)).sameGraph hsame.symm⟩
      rw [← hf.knowledge_eq]
      exact hadv.knowledge_subset
    · intro S hS
      have hc := hS.inferred.sameGraph hs
      have hstart : (Propagation.start d ⟨net, []⟩).network.knowledge d ⊆ S := by
        change net.knowledge d ⊆ S
        rw [hf.knowledge_eq]
        exact hS.pinned
      exact hlast.within (hc.sameGraph (Passed.advance hpre).sameGraph)
        (Passed.within hpre hc hstart) trivial
  · rw [hp] at h
    cases h

end Network

namespace Relation

def rename (σ : VariableId → VariableId) : Relation → Relation
  | .equality left right => .equality (σ left) (σ right)
  | .arithmetic op result left right => .arithmetic op (σ result) (σ left) (σ right)
  | .custom name function inputs output => .custom name function (inputs.map σ) (σ output)

theorem infers_rename (σ : VariableId ≃ VariableId) (r : Relation) :
    (r.rename σ).Infers S (σ v) ↔ r.Infers (Set.preimage σ S) v := by
  cases r <;> simp [rename, Infers]

theorem additive_rename (σ : VariableId → VariableId) (r : Relation) :
    (r.rename σ).Additive ↔ r.Additive := by
  cases r <;> exact Iff.rfl

end Relation

namespace Network

variable {net net' : Network} {d : Digest} {σ : VariableId ≃ VariableId}

/-- Two networks differ in the order of their relationships, in what was solved before,
and in the handles of variables; `σ` takes the handles of the one to those of the other. -/
structure Reorders (σ : VariableId ≃ VariableId) (net net' : Network) : Prop where
  pinned : ∀ v, σ v ∈ net'.pinned ↔ v ∈ net.pinned
  relations : (net'.order.map net'.relationAt).Perm
    (net.order.map fun r => (net.relationAt r).map (·.rename σ))

theorem Integrity.relation_iff (hi : net.Integrity) (f : Relation → Relation)
    (relation : Relation) :
    some relation ∈ (net.order.map fun r => (net.relationAt r).map f) ↔
      ∃ r rel, net.relationshipAt r = some rel ∧ f rel.relation = relation := by
  rw [List.mem_map]
  constructor
  · rintro ⟨r, -, he⟩
    simp only [relationAt, Option.map_map, Option.map_eq_some_iff] at he
    obtain ⟨rel, hr, he⟩ := he
    exact ⟨r, rel, hr, he⟩
  · rintro ⟨r, rel, hr, rfl⟩
    exact ⟨r, (hi.mem_order r).mpr (by rw [hr]; rfl), by simp [relationAt, hr]⟩

namespace Reorders

variable (h : net.Reorders σ net') (hi : net.Integrity) (hi' : net'.Integrity)

include h hi hi'

theorem relation_iff {relation : Relation} :
    (∃ r rel, net'.relationshipAt r = some rel ∧ rel.relation = relation) ↔
      ∃ r rel, net.relationshipAt r = some rel ∧ rel.relation.rename σ = relation := by
  have hperm := h.relations.mem_iff (a := some relation)
  have hself := hi'.relation_iff id relation
  simp only [Option.map_id_fun, id] at hself
  rwa [hself, hi.relation_iff] at hperm

theorem additive (ha : net.Additive) : net'.Additive := by
  intro r' rel' hr'
  obtain ⟨r, rel, hr, he⟩ := (h.relation_iff hi hi').mp ⟨r', rel', hr', rfl⟩
  rw [← he, Relation.additive_rename]
  exact ha r rel hr

theorem saturated_iff : net'.Saturated S ↔ net.Saturated (Set.preimage σ S) := by
  constructor
  · intro hS
    refine ⟨fun v hv => hS.pinned ((h.pinned v).mpr hv), fun r rel hr v hv => ?_⟩
    obtain ⟨r', rel', hr', he⟩ := (h.relation_iff hi hi').mpr ⟨r, rel, hr, rfl⟩
    apply hS.inferred r' rel' hr'
    rw [he, Relation.infers_rename]
    exact hv
  · intro hS
    refine ⟨fun v hv => ?_, fun r' rel' hr' v hv => ?_⟩
    · obtain ⟨w, rfl⟩ := σ.surjective v
      exact hS.pinned ((h.pinned w).mp hv)
    · obtain ⟨w, rfl⟩ := σ.surjective v
      obtain ⟨r, rel, hr, he⟩ := (h.relation_iff hi hi').mp ⟨r', rel', hr', rfl⟩
      rw [← he, Relation.infers_rename] at hv
      exact hS.inferred r rel hr w hv

theorem mem_least {T : Set VariableId} (hS : IsLeast {S | net.Saturated S} S)
    (hT : IsLeast {S | net'.Saturated S} T) : σ v ∈ T ↔ v ∈ S := by
  constructor
  · intro hv
    have himage : net'.Saturated (Set.image σ S) := by
      rw [h.saturated_iff hi hi', Set.preimage_image_eq S σ.injective]
      exact hS.1
    obtain ⟨w, hw, he⟩ := hT.2 himage hv
    exact σ.injective he ▸ hw
  · intro hv
    exact hS.2 ((h.saturated_iff hi hi').mp hT.1) hv

end Reorders

/-- Where no relation divides, solving a fresh digest with an answer makes known exactly
the least set of variables that holds what is pinned and that no relation adds to: in an
equality one side adds the other, a sum or a difference adds its only missing position,
a call adds its output once all inputs are there. The same variables become known in
every network that differs in the order of its relationships only. -/
theorem known_variables_are_least (hr : Reachable net) (hf : net.Fresh d) (ha : net.Additive)
    (h : (net.perform (.solve d)).result.isOk) :
    IsLeast {S | net.Saturated S} ((net.perform (.solve d)).network.knowledge d) ∧
    ∀ (σ : VariableId ≃ VariableId) (net' : Network) (d' : Digest),
      Reachable net' → net'.Fresh d' → net.Reorders σ net' →
      (net'.perform (.solve d')).result.isOk → ∀ v, σ v ∈ (net'.perform (.solve d')).network.knowledge d' ↔
        v ∈ (net.perform (.solve d)).network.knowledge d := by
  have hleast := knowledge_isLeast hr.integrity hf ha h
  refine ⟨hleast, fun σ net' d' hr' hf' hreorders h' v => ?_⟩
  have ha' := hreorders.additive hr.integrity hr'.integrity ha
  exact hreorders.mem_least hr.integrity hr'.integrity hleast
    (knowledge_isLeast hr'.integrity hf' ha' h')

def sums (calls : List Call) : Network :=
  (empty .standard).after
    ([.declare "b", .declare "a", .declare "c", .declare "e", .assign "a" 1] ++ calls)

def forwardSums : Network :=
  sums [.equals (.name "b") (.name "a"), .arithmetic .add (.name "c") (.name "b") (.name "b"),
    .arithmetic .add (.name "a") (.name "e") (.name "e")]

def backwardSums : Network :=
  sums [.arithmetic .add (.name "a") (.name "e") (.name "e"),
    .arithmetic .add (.name "c") (.name "b") (.name "b"), .equals (.name "b") (.name "a")]

theorem reachable_sums (calls : List Call) : Reachable (sums calls) :=
  ⟨.standard, empty .standard, _, create_standard, rfl⟩

theorem additive_forwardSums : forwardSums.Additive := by
  intro ⟨i⟩ rel hr
  have hnext : forwardSums.relationships.next = 3 := rfl
  match i with
  | 0 | 1 | 2 => cases hr; first | trivial | exact .inl rfl
  | i + 3 =>
    have hnone : forwardSums.relationshipAt ⟨i + 3⟩ = none :=
      Arena.get?_eq_none_of_next_le (by simp [hnext])
    rw [hnone] at hr
    cases hr

theorem reorders_sums : forwardSums.Reorders (Equiv.refl _) backwardSums where
  pinned v := by
    obtain ⟨i⟩ := v
    match i with
    | 0 | 1 | 2 | 3 => exact Bool.eq_iff_iff.mp (by decide +kernel)
    | i + 4 =>
      have hnext : forwardSums.vars.next = 4 ∧ backwardSums.vars.next = 4 := ⟨rfl, rfl⟩
      have hnone : forwardSums.variableAt ⟨i + 4⟩ = none :=
        Arena.get?_eq_none_of_next_le (by simp [hnext.1])
      have hnone' : backwardSums.variableAt ⟨i + 4⟩ = none :=
        Arena.get?_eq_none_of_next_le (by simp [hnext.2])
      simp [pinned, hnone, hnone']
  relations := (List.reverse_perm _).symm

theorem known_variables_are_least_sums :
    Reachable forwardSums ∧ forwardSums.Fresh 1 ∧ forwardSums.Additive ∧
      Reachable backwardSums ∧ backwardSums.Fresh 1 ∧
      forwardSums.Reorders (Equiv.refl _) backwardSums ∧
      (forwardSums.perform (.solve 1)).result.isOk ∧
      (backwardSums.perform (.solve 1)).result.isOk ∧
      IsLeast {S | forwardSums.Saturated S} ((forwardSums.perform (.solve 1)).network.knowledge 1) ∧
      (∀ v, v ∈ (backwardSums.perform (.solve 1)).network.knowledge 1 ↔
        v ∈ (forwardSums.perform (.solve 1)).network.knowledge 1) ∧
      ⟨2⟩ ∈ (forwardSums.perform (.solve 1)).network.knowledge 1 ∧
      ⟨3⟩ ∉ (forwardSums.perform (.solve 1)).network.knowledge 1 := by
  have hr : Reachable forwardSums := reachable_sums _
  have hr' : Reachable backwardSums := reachable_sums _
  have hf : forwardSums.Fresh 1 := hr.wellHeld.fresh (by decide +kernel)
  have hf' : backwardSums.Fresh 1 := hr'.wellHeld.fresh (by decide +kernel)
  have h : (forwardSums.perform (.solve 1)).result.isOk := by decide +kernel
  have h' : (backwardSums.perform (.solve 1)).result.isOk := by decide +kernel
  obtain ⟨hleast, hsame⟩ := known_variables_are_least hr hf additive_forwardSums h
  have hc : ((forwardSums.perform (.solve 1)).network.valueAt 1 ⟨2⟩).isSome := by decide +kernel
  have he : ¬ ((forwardSums.perform (.solve 1)).network.valueAt 1 ⟨3⟩).isSome := by decide +kernel
  exact ⟨hr, hf, additive_forwardSums, hr', hf', reorders_sums, h, h', hleast,
    hsame (Equiv.refl _) backwardSums 1 hr' hf' reorders_sums h', hc, he⟩

end Network

end ConstraintNet
