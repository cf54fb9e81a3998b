import Mathlib.Data.List.Basic
import ConstraintNet.Relation

/-!
# What a relation derives

A derivation reads the operands of its relation only, and names a target among
them all others of which are known.
-/

set_option autoImplicit false

namespace ConstraintNet

variable {known known' : VariableId → Option Float} {t : VariableId} {value : Float}

theorem divideInto_target {target : VariableId} {numerator denominator : Float}
    (h : divideInto target numerator denominator = .ok (.derived t value)) : t = target := by
  unfold divideInto at h
  split at h
  · split at h <;> cases h
  · cases h
    rfl

namespace Operator

variable {op : Operator} {v : VariableId} {a b : Float}

theorem forward_target (h : op.forward v a b = .ok (.derived t value)) : t = v := by
  cases op with
  | div => exact divideInto_target h
  | _ =>
    cases h
    rfl

theorem solveLeft_target (h : op.solveLeft v a b = .ok (.derived t value)) : t = v := by
  cases op with
  | mul => exact divideInto_target h
  | _ =>
    cases h
    rfl

theorem solveRight_target (h : op.solveRight v a b = .ok (.derived t value)) : t = v := by
  cases op with
  | mul | div => exact divideInto_target h
  | _ =>
    cases h
    rfl

end Operator

namespace Relation

theorem allKnown_congr {vs : List VariableId} (h : ∀ v ∈ vs, known v = known' v) :
    allKnown known vs = allKnown known' vs := by
  induction vs with
  | nil => rfl
  | cons v vs ih =>
    unfold allKnown
    rw [h v List.mem_cons_self, ih fun w hw => h w (List.mem_cons_of_mem _ hw)]

theorem isSome_allKnown {vs : List VariableId} :
    (allKnown known vs).isSome ↔ ∀ v ∈ vs, (known v).isSome := by
  rw [← not_iff_not]
  simpa using allKnown_eq_none_iff

theorem solve_congr {r : Relation} (h : ∀ v ∈ r.operands, known v = known' v) :
    r.solve known = r.solve known' := by
  cases r with
  | equality left right =>
    simp only [operands, result, arguments, List.mem_cons, List.not_mem_nil, or_false,
      forall_eq_or_imp, forall_eq] at h
    simp only [solve, h.1, h.2]
  | arithmetic op result left right =>
    simp only [operands, Relation.result, arguments, List.mem_cons, List.not_mem_nil, or_false,
      forall_eq_or_imp, forall_eq] at h
    simp only [solve, h.1, h.2.1, h.2.2]
  | custom name function inputs output =>
    have hin := allKnown_congr fun v hv => h v (List.mem_cons_of_mem _ hv)
    simp only [solve]
    rw [show allKnown known inputs = allKnown known' inputs from hin]

theorem derive_congr {r : Relation} (h : ∀ v ∈ r.operands, known v = known' v) :
    r.derive known = r.derive known' := by
  unfold derive
  rw [solve_congr h]

theorem solve_of_derive {r : Relation} (h : r.derive known = .ok (.derived t value)) :
    r.solve known = .ok (.derived t value) := by
  unfold derive at h
  split at h
  · rename_i hs
    split at h
    · rw [hs, h]
    · cases h
  · exact h

/-- Whatever is derived is the last operand that could have been missing. -/
theorem derive_target {r : Relation} (h : r.derive known = .ok (.derived t value)) :
    t ∈ r.operands ∧ ∀ v ∈ r.operands, v ≠ t → (known v).isSome := by
  replace h := solve_of_derive h
  cases r with
  | equality left right =>
    simp only [solve] at h
    cases hr : known right with
    | some b =>
      simp only [hr, Except.ok.injEq, Derivation.derived.injEq] at h
      simp [operands, result, arguments, ← h.1, hr]
    | none =>
      cases hl : known left with
      | some a =>
        simp only [hl, hr, Except.ok.injEq, Derivation.derived.injEq] at h
        simp [operands, result, arguments, ← h.1, hl]
      | none => simp [hl, hr] at h
  | arithmetic op result left right =>
    simp only [solve] at h
    cases hl : known left with
    | some a =>
      cases hr : known right with
      | some b =>
        simp only [hl, hr] at h
        simp [operands, Relation.result, arguments, Operator.forward_target h, hl, hr]
      | none =>
        cases ho : known result with
        | some c =>
          simp only [hl, hr, ho] at h
          simp [operands, Relation.result, arguments, Operator.solveRight_target h, hl, ho]
        | none => simp [hl, hr, ho] at h
    | none =>
      cases hr : known right with
      | some b =>
        cases ho : known result with
        | some c =>
          simp only [hl, hr, ho] at h
          simp [operands, Relation.result, arguments, Operator.solveLeft_target h, hr, ho]
        | none => simp [hl, hr, ho] at h
      | none => simp [hl, hr] at h
  | custom name function inputs output =>
    simp only [solve] at h
    cases ha : allKnown known inputs with
    | none => simp [ha] at h
    | some values =>
      simp only [ha, Except.ok.injEq, Derivation.derived.injEq] at h
      have hinputs : ∀ v ∈ inputs, (known v).isSome := isSome_allKnown.mp (by rw [ha]; rfl)
      refine ⟨by simp [operands, result, h.1], fun v hv hne => ?_⟩
      rcases List.mem_cons.mp hv with hv | hv
      · exact absurd (hv.trans h.1) hne
      · exact hinputs v hv

theorem derive_others {r : Relation} (h : r.derive known ≠ .ok .pending) :
    ∃ t ∈ r.operands, ∀ v ∈ r.operands, v ≠ t → (known v).isSome := by
  have hs : r.solve known ≠ .ok .pending := by
    intro hp
    apply h
    unfold derive
    rw [hp]
  cases r with
  | equality left right =>
    cases hr : known right with
    | some b => exact ⟨left, by simp [operands, result, arguments], by
        simp [operands, result, arguments, hr]⟩
    | none =>
      cases hl : known left with
      | some a => exact ⟨right, by simp [operands, result, arguments], by
          simp [operands, result, arguments, hl]⟩
      | none => simp [solve, hl, hr] at hs
  | arithmetic op result left right =>
    cases hl : known left with
    | some a =>
      cases hr : known right with
      | some b => exact ⟨result, by simp [operands, Relation.result], by
          simp [operands, Relation.result, arguments, hl, hr]⟩
      | none =>
        cases ho : known result with
        | some c => exact ⟨right, by simp [operands, arguments], by
            simp [operands, Relation.result, arguments, hl, ho]⟩
        | none => simp [solve, hl, hr, ho] at hs
    | none =>
      cases hr : known right with
      | some b =>
        cases ho : known result with
        | some c => exact ⟨left, by simp [operands, arguments], by
            simp [operands, Relation.result, arguments, hr, ho]⟩
        | none => simp [solve, hl, hr, ho] at hs
      | none => simp [solve, hl, hr] at hs
  | custom name function inputs output =>
    cases ha : allKnown known inputs with
    | none => simp [solve, ha] at hs
    | some values =>
      have hinputs : ∀ v ∈ inputs, (known v).isSome := isSome_allKnown.mp (by rw [ha]; rfl)
      refine ⟨output, by simp [operands, result], fun v hv hne => ?_⟩
      rcases List.mem_cons.mp hv with hv | hv
      · exact absurd hv hne
      · exact hinputs v hv

/-- Nothing is derived backwards unless the result is known. -/
theorem derive_waits {r : Relation} (ha : ∃ v ∈ r.arguments, known v = none)
    (hr : known r.result = none) : r.derive known = .ok .pending := by
  unfold derive
  cases r with
  | equality left right =>
    simp only [arguments, List.mem_singleton, exists_eq_left, result] at ha hr
    simp [solve, ha, hr]
  | arithmetic op result left right =>
    simp only [arguments, List.mem_cons, List.not_mem_nil, or_false, exists_eq_or_imp,
      exists_eq_left, Relation.result] at ha hr
    rcases ha with hl | hright
    · simp [solve, hl, hr]
    · cases hl : known left <;> simp [solve, hl, hright, hr]
  | custom name function inputs output =>
    have hnone : allKnown known inputs = none := allKnown_eq_none_iff.mpr ha
    simp [solve, hnone]

theorem solve_forward_congr {r : Relation} (hk : ∀ v ∈ r.arguments, (known v).isSome)
    (h : ∀ v ∈ r.arguments, known v = known' v) : r.solve known = r.solve known' := by
  cases r with
  | equality left right =>
    obtain ⟨b, hb⟩ := Option.isSome_iff_exists.mp (hk right (by simp [arguments]))
    have hb' := (h right (by simp [arguments])).symm.trans hb
    simp only [solve, hb, hb']
  | arithmetic op result left right =>
    obtain ⟨a, ha⟩ := Option.isSome_iff_exists.mp (hk left (by simp [arguments]))
    obtain ⟨b, hb⟩ := Option.isSome_iff_exists.mp (hk right (by simp [arguments]))
    have ha' := (h left (by simp [arguments])).symm.trans ha
    have hb' := (h right (by simp [arguments])).symm.trans hb
    simp only [solve, ha, hb, ha', hb']
  | custom name function inputs output =>
    simp only [solve]
    rw [show allKnown known inputs = allKnown known' inputs from allKnown_congr h]

theorem derive_forward_congr {r : Relation} (hk : ∀ v ∈ r.arguments, (known v).isSome)
    (h : ∀ v ∈ r.arguments, known v = known' v) : r.derive known = r.derive known' := by
  unfold derive
  rw [solve_forward_congr hk h]

theorem derive_forward_target {r : Relation} (hk : ∀ v ∈ r.arguments, (known v).isSome)
    (h : r.derive known = .ok (.derived t value)) : t = r.result := by
  replace h := solve_of_derive h
  cases r with
  | equality left right =>
    obtain ⟨b, hb⟩ := Option.isSome_iff_exists.mp (hk right (by simp [arguments]))
    simp only [solve, hb, Except.ok.injEq, Derivation.derived.injEq] at h
    exact h.1.symm
  | arithmetic op result left right =>
    obtain ⟨a, ha⟩ := Option.isSome_iff_exists.mp (hk left (by simp [arguments]))
    obtain ⟨b, hb⟩ := Option.isSome_iff_exists.mp (hk right (by simp [arguments]))
    simp only [solve, ha, hb] at h
    exact Operator.forward_target h
  | custom name function inputs output =>
    simp only [solve] at h
    cases ha : allKnown known inputs with
    | none => simp [ha] at h
    | some values =>
      simp only [ha, Except.ok.injEq, Derivation.derived.injEq] at h
      exact h.1.symm

theorem derive_known_target {r : Relation} (h : r.derive known = .ok (.derived t value))
    (ht : (known t).isSome) : t = r.result ∧ ∀ v ∈ r.operands, (known v).isSome := by
  have hall : ∀ v ∈ r.operands, (known v).isSome := by
    intro v hv
    by_cases hvt : v = t
    · rw [hvt]
      exact ht
    · exact (derive_target h).2 v hv hvt
  exact ⟨derive_forward_target (fun v hv => hall v (List.mem_cons_of_mem _ hv)) h, hall⟩

end Relation

end ConstraintNet
