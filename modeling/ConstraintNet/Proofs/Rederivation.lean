import ConstraintNet.Config
import ConstraintNet.Relation
import ConstraintNet.Proofs.Binary64

/-!
# Deriving a result from what was derived from it

An operand that was derived from the result of a relation is rounded, and so is the result
that is derived from it in turn. The two errors together stay below the default tolerance
as long as the values are moderate.
-/

set_option autoImplicit false

namespace ConstraintNet

open Binary64

def moderate : Float := 3e12

namespace Binary64

theorem toRat_moderate : toRat moderate = 3 * 10 ^ 12 := by
  have hunpack : moderate.toModel.unpack =
      .finite .positive 6144000000000000 (-11) (by decide) := rfl
  rw [toRat, hunpack]
  norm_num [value]

theorem le_toRat_defaultTolerance : 1 / 10 ^ 3 ≤ toRat Config.defaultTolerance := by
  have hunpack : Config.defaultTolerance.toModel.unpack =
      .finite .positive 4611686018427388 (-62) (by decide) := rfl
  rw [toRat, hunpack]
  norm_num [value]

theorem le_toRat_zeroEpsilon : 1 / 2 ^ 40 ≤ toRat zeroEpsilon := by
  have hunpack : zeroEpsilon.toModel.unpack =
      .finite .positive 4951760157141521 (-92) (by decide) := rfl
  rw [toRat, hunpack]
  norm_num [value]

section Exact

variable {w q h k n : ℚ}

theorem tiny_le : (2 : ℚ) ^ (-1075 : Int) ≤ 1 / 2 ^ 100 := by
  have hle : (2 : ℚ) ^ (-1075 : Int) ≤ 2 ^ (-100 : Int) :=
    zpow_le_zpow_right₀ (by norm_num) (by norm_num)
  exact hle.trans_eq (by norm_num)

theorem mul_tiny_le (hk : |k| < 2 ^ 1024) : |k| * 2 ^ (-1075 : Int) ≤ 1 / 2 ^ 51 := by
  have hpow : (2 : ℚ) ^ 1024 * 2 ^ (-1075 : Int) = 1 / 2 ^ 51 := by
    rw [← zpow_natCast, ← zpow_add₀ (by norm_num)]
    norm_num
  exact (mul_le_mul_of_nonneg_right hk.le (by positivity)).trans_eq hpow

theorem slack_le_of_abs_le {bound : ℚ} (hq : |q| ≤ bound) :
    slack q ≤ bound / 2 ^ 53 + 1 / 2 ^ 100 :=
  add_le_add (div_le_div_of_nonneg_right hq (by norm_num)) tiny_le

/-- What may come back in the result of the error of a derived operand. -/
def drift : ℚ := 6663 / 10 ^ 7

theorem drift_sum (hw : |w - q| ≤ slack q) (hq : |q| ≤ 6 * 10 ^ 12) : |w - q| ≤ drift := by
  refine hw.trans ((slack_le_of_abs_le hq).trans ?_)
  norm_num [drift]

theorem drift_mul (hw : |w - h / k| ≤ slack (h / k)) (hk : k ≠ 0) (hk' : |k| < 2 ^ 1024)
    (hh : |h| ≤ 3 * 10 ^ 12) : |w * k - h| ≤ drift := by
  have hpos : 0 < |k| := abs_pos.mpr hk
  have hsplit : w * k - h = (w - h / k) * k := by rw [sub_mul, div_mul_cancel₀ h hk]
  have hslack : slack (h / k) * |k| = |h| / 2 ^ 53 + |k| * 2 ^ (-1075 : Int) := by
    rw [slack, abs_div, add_mul, div_right_comm, div_mul_cancel₀ _ hpos.ne', mul_comm |k|]
  calc |w * k - h| = |w - h / k| * |k| := by rw [hsplit, abs_mul]
    _ ≤ slack (h / k) * |k| := mul_le_mul_of_nonneg_right hw hpos.le
    _ ≤ 3 * 10 ^ 12 / 2 ^ 53 + 1 / 2 ^ 51 := by
      rw [hslack]
      exact add_le_add (div_le_div_of_nonneg_right hh (by norm_num)) (mul_tiny_le hk')
    _ ≤ drift := by norm_num [drift]

theorem tiny_div_le (hk : 1 / 2 ^ 40 ≤ |k|) : (2 : ℚ) ^ (-1075 : Int) / |k| ≤ 1 / 2 ^ 60 := by
  have hpos : 0 < |k| := lt_of_lt_of_le (by norm_num) hk
  rw [div_le_iff₀ hpos]
  have htiny := tiny_le
  linarith

theorem drift_div_left (hw : |w - h * k| ≤ slack (h * k)) (hk : 1 / 2 ^ 40 ≤ |k|)
    (hh : |h| ≤ 3 * 10 ^ 12) : |w / k - h| ≤ drift := by
  have hpos : 0 < |k| := lt_of_lt_of_le (by norm_num) hk
  have hsplit : w / k - h = (w - h * k) / k := by
    rw [sub_div, mul_div_cancel_right₀ h (abs_pos.mp hpos)]
  have hslack : slack (h * k) / |k| = |h| / 2 ^ 53 + 2 ^ (-1075 : Int) / |k| := by
    rw [slack, abs_mul, add_div, div_right_comm, mul_div_cancel_right₀ _ hpos.ne']
  calc |w / k - h| = |w - h * k| / |k| := by rw [hsplit, abs_div]
    _ ≤ slack (h * k) / |k| := div_le_div_of_nonneg_right hw hpos.le
    _ ≤ 3 * 10 ^ 12 / 2 ^ 53 + 1 / 2 ^ 60 := by
      rw [hslack]
      exact add_le_add (div_le_div_of_nonneg_right hh (by norm_num)) (tiny_div_le hk)
    _ ≤ drift := by norm_num [drift]

theorem slack_le_of_near (hw : |w - q| ≤ slack q) :
    slack q ≤ 3 / 2 * |w| / 2 ^ 53 + 2 * 2 ^ (-1075 : Int) := by
  have hq : |q| ≤ |w| + slack q := by
    have := abs_le.mp hw
    have := abs_sub_abs_le_abs_sub q w
    rw [abs_sub_comm q w] at this
    linarith
  have hw' := abs_nonneg w
  have htiny : (0 : ℚ) < 2 ^ (-1075 : Int) := by positivity
  unfold slack at hq ⊢
  generalize (2 : ℚ) ^ (-1075 : Int) = tiny at *
  linarith

theorem drift_div_right (hw : |w - n / h| ≤ slack (n / h)) (hzero : h ≠ 0)
    (hw' : 1 / 2 ^ 40 ≤ |w|) (hh : |h| ≤ 3 * 10 ^ 12) : |n / w - h| ≤ drift := by
  have hpos : 0 < |w| := lt_of_lt_of_le (by norm_num) hw'
  have hne : w ≠ 0 := abs_pos.mp hpos
  have hsplit : n / w - h = -(w - n / h) / w * h := by
    rw [neg_sub, sub_div, div_self hne, sub_mul, one_mul, div_right_comm,
      div_mul_cancel₀ _ hzero]
  have hslack : slack (n / h) / |w| ≤ 3 / 2 / 2 ^ 53 + 2 * (1 / 2 ^ 60) := by
    have htiny := (div_le_iff₀ hpos).mp (tiny_div_le hw')
    rw [div_le_iff₀ hpos]
    linarith [slack_le_of_near hw]
  calc |n / w - h| = |w - n / h| / |w| * |h| := by rw [hsplit, abs_mul, abs_div, abs_neg]
    _ ≤ (3 / 2 / 2 ^ 53 + 2 * (1 / 2 ^ 60)) * (3 * 10 ^ 12) :=
      mul_le_mul ((div_le_div_of_nonneg_right hw hpos.le).trans hslack) hh (abs_nonneg h)
        (by norm_num)
    _ ≤ drift := by norm_num [drift]

end Exact

theorem agrees_of_drift {held again : Float} {q : ℚ} (hf : held.isFinite)
    (hh : |toRat held| ≤ 3 * 10 ^ 12) (hr : Rounds again q) (hq : |q - toRat held| ≤ drift) :
    again.isFinite ∧ (held - again).abs ≤ Config.defaultTolerance := by
  have hlarge : (3 * 10 ^ 12 + 1 : ℚ) ≤ 2 ^ 1000 := by
    have hpow : (2 : ℚ) ^ 42 ≤ 2 ^ 1000 := pow_le_pow_right₀ (by norm_num) (by norm_num)
    refine le_trans ?_ hpow
    norm_num
  have hdrift : drift ≤ 1 := by norm_num [drift]
  have hq' : |q| ≤ 3 * 10 ^ 12 + 1 := by
    have := abs_sub_abs_le_abs_sub q (toRat held)
    linarith
  have hagain : again.isFinite := hr.finite (hq'.trans hlarge)
  have hnear : |toRat held - toRat again| ≤ 9994 / 10 ^ 7 := by
    have hslack := slack_le_of_abs_le hq'
    have htriangle := abs_sub_le (toRat again) q (toRat held)
    have := hr.near hagain
    rw [abs_sub_comm]
    norm_num [drift] at *
    linarith
  have hsub := sub_rounds hf hagain
  have hfinite : (held - again).isFinite :=
    hsub.finite (hnear.trans (le_trans (by norm_num) hlarge))
  refine ⟨hagain, (le_iff (isFinite_abs hfinite) rfl).mpr ?_⟩
  rw [toRat_abs hfinite]
  have hslack := slack_le_of_abs_le hnear
  have htriangle := abs_sub_abs_le_abs_sub (toRat (held - again)) (toRat held - toRat again)
  have := hsub.near hfinite
  have := le_toRat_defaultTolerance
  norm_num at *
  linarith

theorem abs_le_of_moderate {x : Float} (hx : x.isFinite) (h : x.abs ≤ moderate) :
    |toRat x| ≤ 3 * 10 ^ 12 := by
  rwa [le_iff (isFinite_abs hx) rfl, toRat_abs hx, toRat_moderate] at h

theorem le_abs_of_divisor {x : Float} (hx : x.isFinite) (h : ¬ x.abs < zeroEpsilon) :
    1 / 2 ^ 40 ≤ |toRat x| := by
  rw [lt_iff (isFinite_abs hx) rfl, toRat_abs hx, not_lt] at h
  exact le_toRat_zeroEpsilon.trans h

theorem toRat_ne_zero_of_divisor {x : Float} (hx : x.isFinite) (h : ¬ x.abs < zeroEpsilon) :
    toRat x ≠ 0 :=
  abs_pos.mp (lt_of_lt_of_le (by norm_num) (le_abs_of_divisor hx h))

end Binary64

theorem divideInto_eq_derived {target t : VariableId} {numerator denominator value : Float} :
    divideInto target numerator denominator = .ok (.derived t value) ↔
      ¬ denominator.abs < zeroEpsilon ∧ t = target ∧ value = numerator / denominator := by
  unfold divideInto
  split
  · rename_i hzero
    split <;> simp [hzero]
  · rename_i hdivisor
    simp [hdivisor, eq_comm]

namespace Operator

variable {op : Operator} {v result : VariableId} {held left right value : Float}

/-- Values of which a result and one operand are known, such that the other operand gives
the result back: the result is moderate, so is the known operand of a sum or a difference,
and what a quotient divides by does not count as zero. -/
def Gentle (op : Operator) (held known divisor : Float) : Prop :=
  held.abs ≤ moderate ∧
    match op with
    | .add | .sub => known.abs ≤ moderate
    | .mul => True
    | .div => ¬ divisor.abs < zeroEpsilon

theorem forward_solveLeft (hheld : held.isFinite) (hright : right.isFinite)
    (hvalue : value.isFinite) (hd : op.solveLeft v held right = .ok (.derived v value))
    (hg : op.Gentle held right right) : ∃ again,
      op.forward result value right = .ok (.derived result again) ∧ again.isFinite ∧
        (held - again).abs ≤ Config.defaultTolerance := by
  have hh := abs_le_of_moderate hheld hg.1
  cases op with
  | add =>
    cases hd
    have hr := abs_le_of_moderate hright hg.2
    have hsum : |toRat held - toRat right| ≤ 6 * 10 ^ 12 := (abs_sub _ _).trans (by linarith)
    have hdrift := drift_sum ((sub_rounds hheld hright).near hvalue) hsum
    refine ⟨_, rfl, agrees_of_drift hheld hh (add_rounds hvalue hright) (le_of_eq_of_le ?_ hdrift)⟩
    congr 1
    ring
  | sub =>
    cases hd
    have hr := abs_le_of_moderate hright hg.2
    have hsum : |toRat held + toRat right| ≤ 6 * 10 ^ 12 := (abs_add_le _ _).trans (by linarith)
    have hdrift := drift_sum ((add_rounds hheld hright).near hvalue) hsum
    refine ⟨_, rfl, agrees_of_drift hheld hh (sub_rounds hvalue hright) (le_of_eq_of_le ?_ hdrift)⟩
    congr 1
    ring
  | mul =>
    obtain ⟨hdivisor, -, rfl⟩ := divideInto_eq_derived.mp hd
    have hzero := toRat_ne_zero_of_divisor hright hdivisor
    have hdrift := drift_mul ((div_rounds hheld hright hzero).near hvalue) hzero
      (abs_toRat_lt hright) hh
    exact ⟨_, rfl, agrees_of_drift hheld hh (mul_rounds hvalue hright) hdrift⟩
  | div =>
    cases hd
    have hdrift := drift_div_left ((mul_rounds hheld hright).near hvalue)
      (le_abs_of_divisor hright hg.2) hh
    have hzero := toRat_ne_zero_of_divisor hright hg.2
    exact ⟨_, divideInto_eq_derived.mpr ⟨hg.2, rfl, rfl⟩,
      agrees_of_drift hheld hh (div_rounds hvalue hright hzero) hdrift⟩

theorem forward_solveRight (hheld : held.isFinite) (hleft : left.isFinite)
    (hvalue : value.isFinite) (hd : op.solveRight v held left = .ok (.derived v value))
    (hg : op.Gentle held left value) : ∃ again,
      op.forward result left value = .ok (.derived result again) ∧ again.isFinite ∧
        (held - again).abs ≤ Config.defaultTolerance := by
  have hh := abs_le_of_moderate hheld hg.1
  cases op with
  | add =>
    cases hd
    have hl := abs_le_of_moderate hleft hg.2
    have hsum : |toRat held - toRat left| ≤ 6 * 10 ^ 12 := (abs_sub _ _).trans (by linarith)
    have hdrift := drift_sum ((sub_rounds hheld hleft).near hvalue) hsum
    refine ⟨_, rfl, agrees_of_drift hheld hh (add_rounds hleft hvalue) (le_of_eq_of_le ?_ hdrift)⟩
    congr 1
    ring
  | sub =>
    cases hd
    have hl := abs_le_of_moderate hleft hg.2
    have hsum : |toRat left - toRat held| ≤ 6 * 10 ^ 12 := (abs_sub _ _).trans (by linarith)
    have hdrift := drift_sum ((sub_rounds hleft hheld).near hvalue) hsum
    rw [abs_sub_comm] at hdrift
    refine ⟨_, rfl, agrees_of_drift hheld hh (sub_rounds hleft hvalue) (le_of_eq_of_le ?_ hdrift)⟩
    congr 1
    ring
  | mul =>
    obtain ⟨hdivisor, -, rfl⟩ := divideInto_eq_derived.mp hd
    have hzero := toRat_ne_zero_of_divisor hleft hdivisor
    have hdrift := drift_mul ((div_rounds hheld hleft hzero).near hvalue) hzero
      (abs_toRat_lt hleft) hh
    rw [mul_comm (toRat _)] at hdrift
    exact ⟨_, rfl, agrees_of_drift hheld hh (mul_rounds hleft hvalue) hdrift⟩
  | div =>
    obtain ⟨hdivisor, -, rfl⟩ := divideInto_eq_derived.mp hd
    have hzero := toRat_ne_zero_of_divisor hheld hdivisor
    have hdrift := drift_div_right ((div_rounds hleft hheld hzero).near hvalue) hzero
      (le_abs_of_divisor hvalue hg.2) hh
    have hzero' := toRat_ne_zero_of_divisor hvalue hg.2
    exact ⟨_, divideInto_eq_derived.mpr ⟨hg.2, rfl, rfl⟩,
      agrees_of_drift hheld hh (div_rounds hleft hvalue hzero') hdrift⟩

end Operator

end ConstraintNet
