import ConstraintNet.Proofs.Derive

/-!
# The target of a derivation

A relation that can be solved for any of its operands derives the one that is unknown, and its
result if none is. Positions are counted, so a variable that is unknown and stands in two of them
is not derived. What is computed is the operation itself or the one that undoes it, and a
quotient by almost nothing is refused or left open.
-/

set_option autoImplicit false

namespace ConstraintNet

variable {known : VariableId → Option Float} {t : VariableId} {r : Relation}

/-- What is computed for a target from values that are known. -/
inductive Computation where
  | plain (value : Float)
  | quotient (numerator denominator : Float)

namespace Computation

def value : Computation → Float
  | .plain value => value
  | .quotient numerator denominator => numerator / denominator

def Degenerate : Computation → Prop
  | .plain _ => False
  | .quotient _ denominator => denominator.abs < zeroEpsilon

inductive Concludes (t : VariableId) : Computation → Except DeriveFault Derivation → Prop
  | derived {c : Computation} (hd : ¬ c.Degenerate) (hf : c.value.isFinite) :
    Concludes t c (.ok (.derived t c.value))
  | nonFinite {c : Computation} (hd : ¬ c.Degenerate) (hf : ¬ c.value.isFinite) :
    Concludes t c (.error .nonFinite)
  | undetermined {numerator denominator : Float} (hd : denominator.abs < zeroEpsilon)
      (hn : numerator.abs < zeroEpsilon) :
    Concludes t (.quotient numerator denominator) (.ok .pending)
  | divisionByZero {numerator denominator : Float} (hd : denominator.abs < zeroEpsilon)
      (hn : ¬ numerator.abs < zeroEpsilon) :
    Concludes t (.quotient numerator denominator) (.error .divisionByZero)

theorem Concludes.eq_derived {c : Computation} {outcome : Except DeriveFault Derivation}
    (h : c.Concludes t outcome) (hd : ¬ c.Degenerate) (hf : c.value.isFinite) :
    outcome = .ok (.derived t c.value) := by
  cases h with
  | derived => rfl
  | nonFinite _ hn => exact absurd hf hn
  | undetermined hsmall | divisionByZero hsmall => exact absurd hsmall hd

def into (t : VariableId) : Computation → Except DeriveFault Derivation
  | .plain value => .ok (.derived t value)
  | .quotient numerator denominator => divideInto t numerator denominator

theorem into_of_not_degenerate {c : Computation} (h : ¬ c.Degenerate) :
    c.into t = .ok (.derived t c.value) := by
  cases c with
  | plain value => rfl
  | quotient numerator denominator => exact if_neg h

theorem concludes_of_solve {c : Computation} (h : r.solve known = c.into t) :
    c.Concludes t (r.derive known) := by
  by_cases hd : c.Degenerate
  · cases c with
    | plain value => exact hd.elim
    | quotient numerator denominator =>
      have hsolve : r.solve known = if numerator.abs < zeroEpsilon then .ok .pending
          else .error .divisionByZero := h.trans (if_pos hd)
      unfold Relation.derive
      rw [hsolve]
      by_cases hn : numerator.abs < zeroEpsilon
      · rw [if_pos hn]
        exact .undetermined hd hn
      · rw [if_neg hn]
        exact .divisionByZero hd hn
  · unfold Relation.derive
    rw [h, into_of_not_degenerate hd]
    by_cases hf : c.value.isFinite
    · simp only [if_pos hf]
      exact .derived hd hf
    · simp only [if_neg hf]
      exact .nonFinite hd hf

end Computation

namespace Operator

def inverse : Operator → Operator
  | .add => .sub
  | .sub => .add
  | .mul => .div
  | .div => .mul

def commutes : Operator → Bool
  | .add | .mul => true
  | .sub | .div => false

def compute : Operator → Float → Float → Computation
  | .div, a, b => .quotient a b
  | op, a, b => .plain (op.apply a b)

/-- What the right operand is computed by. An operator that does not commute undoes itself on
this side: from `c = a - b` follows `b = a - c`. -/
def computeRight (op : Operator) (result left : Float) : Computation :=
  if op.commutes then op.inverse.compute result left else op.compute left result

theorem forward_eq_into (op : Operator) (a b : Float) :
    op.forward t a b = (op.compute a b).into t := by
  cases op <;> rfl

theorem solveLeft_eq_into (op : Operator) (c b : Float) :
    op.solveLeft t c b = (op.inverse.compute c b).into t := by
  cases op <;> rfl

theorem solveRight_eq_into (op : Operator) (c a : Float) :
    op.solveRight t c a = (op.computeRight c a).into t := by
  cases op <;> rfl

end Operator

namespace Relation

def Invertible : Relation → Prop
  | .equality .. | .arithmetic .. => True
  | .custom .. => False

def unknowns (r : Relation) (known : VariableId → Option Float) : List VariableId :=
  r.operands.filter fun v => (known v).isNone

def computation? (known : VariableId → Option Float) (t : VariableId) :
    Relation → Option Computation
  | .equality left right => do return .plain (← known (if t = left then right else left))
  | .arithmetic op result left right =>
    if t = result then do return op.compute (← known left) (← known right)
    else if t = left then do return op.inverse.compute (← known result) (← known right)
    else do return op.computeRight (← known result) (← known left)
  | .custom _ function inputs _ => do return .plain (function (← allKnown known inputs))

/-- A relation comes to what its computation for a target comes to. -/
def Targets (r : Relation) (known : VariableId → Option Float) (t : VariableId) : Prop :=
  ∃ c, r.computation? known t = some c ∧ c.Concludes t (r.derive known)

theorem targets_of_solve {c : Computation} (hc : r.computation? known t = some c)
    (h : r.solve known = c.into t) : r.Targets known t :=
  ⟨c, hc, Computation.concludes_of_solve h⟩

theorem ne_of_known {v w : VariableId} {a : Float} (hv : known v = none) (hw : known w = some a) :
    v ≠ w := by
  rintro rfl
  rw [hv] at hw
  cases hw

section Invertible

variable {op : Operator} {result left right : VariableId} {a b c : Float}

theorem equality_targets_left (hr : known right = some b) :
    (equality left right).Targets known left := by
  apply targets_of_solve (c := .plain b)
  · simp [computation?, hr]
  · simp [solve, hr, Computation.into]

theorem equality_targets_right (hl : known left = some a) (hr : known right = none) :
    (equality left right).Targets known right := by
  apply targets_of_solve (c := .plain a)
  · simp [computation?, ne_of_known hr hl, hl]
  · simp [solve, hl, hr, Computation.into]

theorem arithmetic_targets_result (hl : known left = some a) (hr : known right = some b) :
    (arithmetic op result left right).Targets known result := by
  apply targets_of_solve (c := op.compute a b)
  · simp [computation?, hl, hr]
  · simp [solve, hl, hr, Operator.forward_eq_into]

theorem arithmetic_targets_left (hl : known left = none) (hr : known right = some b)
    (ho : known result = some c) : (arithmetic op result left right).Targets known left := by
  apply targets_of_solve (c := op.inverse.compute c b)
  · simp [computation?, ne_of_known hl ho, hr, ho]
  · simp [solve, hl, hr, ho, Operator.solveLeft_eq_into]

theorem arithmetic_targets_right (hl : known left = some a) (hr : known right = none)
    (ho : known result = some c) : (arithmetic op result left right).Targets known right := by
  apply targets_of_solve (c := op.computeRight c a)
  · simp [computation?, ne_of_known hr ho, ne_of_known hr hl, hl, ho]
  · simp [solve, hl, hr, ho, Operator.solveRight_eq_into]

/-- What a relation comes to by its unknown positions. -/
def DecidedBy (r : Relation) (known : VariableId → Option Float) : List VariableId → Prop
  | [] => r.Targets known r.result
  | [t] => r.Targets known t
  | _ :: _ :: _ => r.derive known = .ok .pending

theorem decidedBy_of_eq (vs : List VariableId) (h : r.unknowns known = vs)
    (hf : r.DecidedBy known vs) : r.DecidedBy known (r.unknowns known) := h ▸ hf

@[simp] theorem unknowns_equality : (equality left right).unknowns known =
    [left, right].filter fun v => (known v).isNone := rfl

@[simp] theorem unknowns_arithmetic : (arithmetic op result left right).unknowns known =
    [result, left, right].filter fun v => (known v).isNone := rfl

theorem decided_equality (left right : VariableId) (known : VariableId → Option Float) :
    (equality left right).DecidedBy known ((equality left right).unknowns known) := by
  cases hr : known right with
  | some b =>
    have htarget : (equality left right).Targets known left := equality_targets_left hr
    cases hl : known left with
    | some a => exact decidedBy_of_eq [] (by simp [hl, hr]) htarget
    | none => exact decidedBy_of_eq [left] (by simp [hl, hr]) htarget
  | none =>
    cases hl : known left with
    | some a =>
      exact decidedBy_of_eq [right] (by simp [hl, hr]) (equality_targets_right hl hr)
    | none =>
      have hpending : (equality left right).derive known = .ok .pending :=
        derive_waits ⟨right, by simp [arguments], hr⟩ hl
      exact decidedBy_of_eq [left, right] (by simp [hl, hr]) hpending

theorem derive_arithmetic_pending (hl : known left = none) (hr : known right = none) :
    (arithmetic op result left right).derive known = .ok .pending := by
  simp [derive, solve, hl, hr]

theorem decided_arithmetic (op : Operator) (result left right : VariableId)
    (known : VariableId → Option Float) : (arithmetic op result left right).DecidedBy known
      ((arithmetic op result left right).unknowns known) := by
  have hwaits {v : VariableId} (hv : v = left ∨ v = right) (hnone : known v = none)
      (ho : known result = none) : (arithmetic op result left right).derive known = .ok .pending :=
    derive_waits ⟨v, by simpa [arguments] using hv, hnone⟩ ho
  cases hl : known left with
  | some a =>
    cases hr : known right with
    | some b =>
      -- With both arguments known it makes no difference whether the result is.
      have htarget : (arithmetic op result left right).Targets known result :=
        arithmetic_targets_result hl hr
      cases ho : known result with
      | some c => exact decidedBy_of_eq [] (by simp [hl, hr, ho]) htarget
      | none => exact decidedBy_of_eq [result] (by simp [hl, hr, ho]) htarget
    | none =>
      cases ho : known result with
      | some c =>
        exact decidedBy_of_eq [right] (by simp [hl, hr, ho]) (arithmetic_targets_right hl hr ho)
      | none =>
        exact decidedBy_of_eq [result, right] (by simp [hl, hr, ho]) (hwaits (.inr rfl) hr ho)
  | none =>
    cases hr : known right with
    | some b =>
      cases ho : known result with
      | some c =>
        exact decidedBy_of_eq [left] (by simp [hl, hr, ho]) (arithmetic_targets_left hl hr ho)
      | none =>
        exact decidedBy_of_eq [result, left] (by simp [hl, hr, ho]) (hwaits (.inl rfl) hl ho)
    | none =>
      have hpending : (arithmetic op result left right).derive known = .ok .pending :=
        derive_arithmetic_pending hl hr
      cases ho : known result with
      | some c => exact decidedBy_of_eq [left, right] (by simp [hl, hr, ho]) hpending
      | none => exact decidedBy_of_eq [result, left, right] (by simp [hl, hr, ho]) hpending

theorem Invertible.decided (h : r.Invertible) (known : VariableId → Option Float) :
    r.DecidedBy known (r.unknowns known) := by
  cases r with
  | equality left right => exact decided_equality left right known
  | arithmetic op result left right => exact decided_arithmetic op result left right known
  | custom => exact h.elim

end Invertible

section Custom

variable {name : String} {function : HostFunction} {inputs : List VariableId}
  {output : VariableId}

theorem custom_targets_result (h : ∀ v ∈ inputs, (known v).isSome) :
    (custom name function inputs output).Targets known output := by
  obtain ⟨values, hvalues⟩ := Option.isSome_iff_exists.mp (isSome_allKnown.mpr h)
  apply targets_of_solve (c := .plain (function values))
  · simp [computation?, hvalues]
  · simp [solve, hvalues, Computation.into]

theorem custom_pending_iff : (custom name function inputs output).derive known = .ok .pending ↔
    ∃ v ∈ inputs, known v = none := by
  constructor
  · intro hpending
    by_contra hall
    obtain ⟨c, hc, h⟩ : (custom name function inputs output).Targets known output :=
      custom_targets_result fun v hv =>
        Option.isSome_iff_ne_none.mpr fun hnone => hall ⟨v, hv, hnone⟩
    obtain ⟨values, -, hplain⟩ := Option.bind_eq_some_iff.mp hc
    -- A computation that is no quotient is never left open.
    cases hplain
    rw [hpending] at h
    cases h
  · intro hmissing
    simp [derive, solve, allKnown_eq_none_iff.mpr hmissing]

end Custom

/-- A relation that can be solved for any of its operands waits if two positions or more are
unknown, derives the variable of the only one that is, and derives its result if none is; a
custom relation waits exactly if an input is unknown, and derives its output otherwise. What is
derived is finite and no quotient by almost nothing. So a variable that is known is derived only
as the result, and only if all operands are known. -/
theorem target_by_unknowns (r : Relation) (known : VariableId → Option Float) :
    (r.Invertible →
      (2 ≤ (r.unknowns known).length → r.derive known = .ok .pending) ∧
      (∀ t, r.unknowns known = [t] → r.Targets known t) ∧
      (r.unknowns known = [] → r.Targets known r.result)) ∧
    (¬ r.Invertible →
      (r.derive known = .ok .pending ↔ ∃ v ∈ r.arguments, known v = none) ∧
      ((∀ v ∈ r.arguments, (known v).isSome) → r.Targets known r.result)) ∧
    ∀ t value, r.derive known = .ok (.derived t value) → (known t).isSome →
      t = r.result ∧ ∀ v ∈ r.operands, (known v).isSome := by
  refine ⟨fun h => ?_, fun h => ?_, fun t value => derive_known_target⟩
  · have hdecided := h.decided known
    refine ⟨fun hmany => ?_, fun t ht => ?_, fun hnone => ?_⟩
    · match hu : r.unknowns known, hmany with
      | _ :: _ :: _, _ =>
        rw [hu] at hdecided
        exact hdecided
    · rw [ht] at hdecided
      exact hdecided
    · rw [hnone] at hdecided
      exact hdecided
  · cases r with
    | equality | arithmetic => exact absurd trivial h
    | custom => exact ⟨custom_pending_iff, custom_targets_result⟩

theorem target_by_unknowns_repeated :
    let p : VariableId := ⟨0⟩
    let q : VariableId := ⟨1⟩
    let only (x v : VariableId) : Option Float := if v = x then some 3 else none
    let r : Relation := .arithmetic .mul p p q
    r.unknowns (only q) = [p, p] ∧ r.derive (only q) = .ok .pending ∧
      r.unknowns (only p) = [q] ∧ r.derive (only p) = .ok (.derived q 1) := by
  intro p q only r
  have hmany : r.unknowns (only q) = [p, p] := rfl
  have hone : r.unknowns (only p) = [q] := rfl
  have hwaits : r.derive (only q) = .ok .pending :=
    ((target_by_unknowns r (only q)).1 trivial).1 (by rw [hmany]; exact Nat.le_refl 2)
  obtain ⟨c, hc, h⟩ := ((target_by_unknowns r (only p)).1 trivial).2.1 q hone
  obtain rfl : Computation.quotient 3 3 = c := Option.some.inj hc
  refine ⟨hmany, hwaits, hone, ?_⟩
  have hd : ¬ (3 : Float).abs < zeroEpsilon := by decide +kernel
  have hvalue : (Computation.quotient 3 3).value = 1 := by decide +kernel
  have hf : (Computation.quotient 3 3).value.isFinite := by decide +kernel
  have hderived := h.eq_derived hd hf
  rw [hvalue] at hderived
  exact hderived

end Relation

end ConstraintNet
