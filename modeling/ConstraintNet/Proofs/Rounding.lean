import Mathlib

/-!
# How far rounding moves a number

A double is rounded from a mantissa with two residual bits, which tell where the exact
number lies between two neighbours. Shifting keeps what they tell, so a rounded number is
off by half a unit in the last place at most.
-/

set_option autoImplicit false

namespace ConstraintNet.Binary64

open Float.Model UnpackedFloat

/-- The residual bits of a mantissa tell where a number lies above it. -/
def Brackets (em : ExtendedMantissa) (y : ℚ) : Prop :=
  match em.roundBit, em.stickyBit with
  | false, false => y = em.mantissa
  | false, true => em.mantissa < y ∧ y < em.mantissa + 1 / 2
  | true, false => y = em.mantissa + 1 / 2
  | true, true => em.mantissa + 1 / 2 < y ∧ y < em.mantissa + 1

variable {em : ExtendedMantissa} {y : ℚ}

theorem Brackets.floor (h : Brackets em y) : em.mantissa ≤ y ∧ y < em.mantissa + 1 := by
  obtain ⟨m, roundBit, stickyBit⟩ := em
  cases roundBit <;> cases stickyBit <;> simp only [Brackets] at h ⊢ <;>
    constructor <;> linarith

theorem brackets_exact (m : Nat) :
    Brackets (ExtendedMantissa.ofMantissaAndAccuracy m .exact) m := rfl

theorem brackets_fraction (m : Nat) {n : Nat} (hn : 0 < n) :
    Brackets (ExtendedMantissa.ofMantissaAndAccuracy (m / n) (accuracyOfFraction (m % n) n))
      (m / n : ℚ) := by
  have hn' : (0 : ℚ) < n := by exact_mod_cast hn
  have hsplit : (m : ℚ) / n = (m / n : Nat) + (m % n : Nat) / n := by
    rw [div_eq_iff hn'.ne', add_mul, div_mul_cancel₀ _ hn'.ne']
    exact_mod_cast (Nat.div_add_mod' m n).symm
  rw [hsplit]
  have hlt : ((m % n : Nat) : ℚ) / n < 1 := by
    rw [div_lt_one hn']
    exact_mod_cast Nat.mod_lt m hn
  unfold accuracyOfFraction
  split
  · rename_i hzero
    simp [ExtendedMantissa.ofMantissaAndAccuracy, Brackets, hzero]
  · rename_i hrest
    have hpos : (0 : ℚ) < (m % n : Nat) / n := by
      apply div_pos _ hn'
      exact_mod_cast Nat.pos_of_ne_zero hrest
    cases hc : compare (2 * (m % n)) n with
    | lt =>
      have hhalf : ((m % n : Nat) : ℚ) / n < 1 / 2 := by
        rw [div_lt_iff₀ hn']
        have : 2 * (m % n) < n := Nat.compare_eq_lt.mp hc
        have : (2 : ℚ) * (m % n : Nat) < n := by exact_mod_cast this
        linarith
      constructor <;> simp only [ExtendedMantissa.ofMantissaAndAccuracy] <;> linarith
    | eq =>
      have hhalf : ((m % n : Nat) : ℚ) / n = 1 / 2 := by
        rw [div_eq_iff hn'.ne']
        have : 2 * (m % n) = n := Nat.compare_eq_eq.mp hc
        have : (2 : ℚ) * (m % n : Nat) = n := by exact_mod_cast this
        linarith
      simp only [ExtendedMantissa.ofMantissaAndAccuracy, Brackets, hhalf]
    | gt =>
      have hhalf : 1 / 2 < ((m % n : Nat) : ℚ) / n := by
        rw [lt_div_iff₀ hn']
        have : n < 2 * (m % n) := Nat.compare_eq_gt.mp hc
        have : (n : ℚ) < 2 * (m % n : Nat) := by exact_mod_cast this
        linarith
      constructor <;> simp only [ExtendedMantissa.ofMantissaAndAccuracy] <;> linarith

theorem Brackets.shiftRightOne (h : Brackets em y) : Brackets em.shiftRightOne (y / 2) := by
  obtain ⟨m, roundBit, stickyBit⟩ := em
  have hm : (m : ℚ) = 2 * (m / 2 : Nat) + (m % 2 : Nat) := by
    exact_mod_cast (Nat.div_add_mod m 2).symm
  have hodd : (1 != 0) = true := rfl
  rcases Nat.mod_two_eq_zero_or_one m with hbit | hbit <;>
    simp only [hbit, Nat.cast_zero, Nat.cast_one] at hm <;>
    cases roundBit <;> cases stickyBit <;>
    simp only [Brackets, ExtendedMantissa.shiftRightOne, hbit, bne_self_eq_false, hodd,
      Bool.or_false, Bool.or_true] at h ⊢
  all_goals first
    | linarith
    | constructor <;> linarith

theorem Brackets.shiftRight (h : Brackets em y) (k : Nat) : Brackets (em >>> k) (y / 2 ^ k) := by
  change Brackets (k.repeat ExtendedMantissa.shiftRightOne em) _
  induction k with
  | zero => simpa [Nat.repeat] using h
  | succ k ih =>
    rw [pow_succ, ← div_div]
    exact ih.shiftRightOne

theorem Brackets.rounded (h : Brackets em y) : |(em.roundedMantissa : ℚ) - y| ≤ 1 / 2 := by
  obtain ⟨m, roundBit, stickyBit⟩ := em
  rw [abs_le]
  cases roundBit <;> cases stickyBit <;>
    simp only [Brackets, ExtendedMantissa.roundedMantissa, ExtendedMantissa.accuracy,
      Accuracy.roundToNearestEven] at h ⊢
  · constructor <;> linarith
  · constructor <;> linarith
  · have heven : ((m + m % 2 : Nat) : ℚ) = m ∨ ((m + m % 2 : Nat) : ℚ) = m + 1 := by
      rcases Nat.mod_two_eq_zero_or_one m with hm | hm <;> simp [hm]
    rcases heven with heven | heven <;> rw [heven] <;> constructor <;> linarith
  · push_cast
    constructor <;> linarith

abbrev lastPlace (m : Nat) (e : Int) : Int := Format.binary64.targetExponent (totalExponent m e)

theorem lastPlace_eq (m : Nat) (e : Int) : lastPlace m e = max (m.log2 + e - 52) (-1074) := by
  simp only [lastPlace, Format.targetExponent, totalExponent, Format.mantissaBits,
    Format.minExponent]
  norm_num
  omega

theorem shiftToTargetExponent_eq (m : Nat) (e : Int) (acc : Accuracy) :
    shiftToTargetExponent Format.binary64 m e acc =
      (ExtendedMantissa.ofMantissaAndAccuracy m acc >>> (lastPlace m e - e).toNat,
        e + ((lastPlace m e - e).toNat : Int)) := rfl

def value : UnpackedFloat → ℚ
  | .finite .positive m e _ => m * 2 ^ e
  | .finite .negative m e _ => -(m * 2 ^ e)
  | .zero _ | .infinity _ | .notANumber => 0

def signed : UnpackedFloat.Sign → ℚ → ℚ
  | .positive, q => q
  | .negative, q => -q

/-- A number is written the way doubles are, but for an exponent that may be too large: with
all places of the mantissa in use, or as small as exponents get. -/
def Canonical : UnpackedFloat → Prop
  | .finite _ m e _ => m < 2 ^ 53 ∧ -1074 ≤ e ∧ (2 ^ 52 ≤ m ∨ e = -1074)
  | .zero _ => True
  | .infinity _ | .notANumber => False

def carried (s : UnpackedFloat.Sign) (m : Nat) (e : Int) : UnpackedFloat :=
  if h : m = 0 then .zero s
  else if m < 2 ^ 53 then .finite s m e (Nat.pos_of_ne_zero h)
  else .finite s (2 ^ 52) (e + 1) (by decide)

theorem log2_le_of_lt {m k : Nat} (hm : m < 2 ^ (k + 1)) : m.log2 ≤ k := by
  by_cases h : m = 0
  · simp [h]
  · exact Nat.le_of_lt_succ ((Nat.log2_lt h).mpr hm)

theorem shiftToTargetExponent_fits {m : Nat} {e : Int} (hm : m < 2 ^ 53) (he : -1074 ≤ e) :
    shiftToTargetExponent Format.binary64 m e .exact = (⟨m, false, false⟩, e) := by
  have hlog : m.log2 ≤ 52 := log2_le_of_lt hm
  have hplace := lastPlace_eq m e
  have hshift : (lastPlace m e - e).toNat = 0 := by omega
  rw [shiftToTargetExponent_eq, hshift]
  exact Prod.ext rfl (by simp)

theorem shiftToTargetExponent_carries {e : Int} (he : -1074 ≤ e) :
    shiftToTargetExponent Format.binary64 (2 ^ 53) e .exact = (⟨2 ^ 52, false, false⟩, e + 1) := by
  have hplace := lastPlace_eq (2 ^ 53) e
  rw [Nat.log2_two_pow] at hplace
  have hshift : (lastPlace (2 ^ 53) e - e).toNat = 1 := by omega
  rw [shiftToTargetExponent_eq, hshift]
  rfl

theorem roundWithAccuracy_eq (s : UnpackedFloat.Sign) {m : Nat} {e : Int} {acc : Accuracy}
    {em : ExtendedMantissa} {t : Int}
    (hfirst : shiftToTargetExponent Format.binary64 m e acc = (em, t)) (ht : -1074 ≤ t)
    (hr : em.roundedMantissa ≤ 2 ^ 53) :
    roundWithAccuracy Format.binary64 s m e acc = carried s em.roundedMantissa t := by
  unfold roundWithAccuracy carried
  rw [hfirst]
  dsimp only
  by_cases hfits : em.roundedMantissa < 2 ^ 53
  · simp only [shiftToTargetExponent_fits hfits ht, if_pos hfits]
  · have hfull : em.roundedMantissa = 2 ^ 53 := by omega
    rw [hfull, shiftToTargetExponent_carries ht]
    rfl

theorem value_finite (s : UnpackedFloat.Sign) (m : Nat) (e : Int) (hm : 0 < m) :
    value (.finite s m e hm) = signed s (m * 2 ^ e) := by
  cases s <;> rfl

theorem signed_zero (s : UnpackedFloat.Sign) : signed s 0 = 0 := by
  cases s <;> simp [signed]

theorem value_carried (s : UnpackedFloat.Sign) {m : Nat} (hm : m ≤ 2 ^ 53) (e : Int) :
    value (carried s m e) = signed s (m * 2 ^ e) := by
  unfold carried
  split
  · rename_i hzero
    rw [hzero, Nat.cast_zero, zero_mul, signed_zero]
    rfl
  · split
    · exact value_finite s m e _
    · have hfull : m = 2 ^ 53 := by omega
      rw [value_finite, hfull, zpow_add_one₀ (by norm_num : (2 : ℚ) ≠ 0)]
      congr 1
      push_cast
      ring

theorem canonical_carried (s : UnpackedFloat.Sign) {m : Nat} {e : Int} (he : -1074 ≤ e)
    (hm : 2 ^ 52 ≤ m ∨ e = -1074) : Canonical (carried s m e) := by
  unfold carried
  split
  · trivial
  · split
    · rename_i hfits
      exact ⟨hfits, he, hm⟩
    · exact ⟨by norm_num, by omega, .inl le_rfl⟩

def slack (q : ℚ) : ℚ := |q| / 2 ^ 53 + 2 ^ (-1075 : Int)

theorem slack_signed (s : UnpackedFloat.Sign) (q : ℚ) : slack (signed s q) = slack q := by
  cases s <;> simp [signed, slack]

theorem signed_sub (s : UnpackedFloat.Sign) (p q : ℚ) :
    signed s p - signed s q = signed s (p - q) := by
  cases s with
  | positive => rfl
  | negative =>
    simp only [signed]
    ring

theorem abs_signed (s : UnpackedFloat.Sign) (q : ℚ) : |signed s q| = |q| := by
  cases s <;> simp [signed]

theorem mantissa_ofMantissaAndAccuracy (m : Nat) (acc : Accuracy) :
    (ExtendedMantissa.ofMantissaAndAccuracy m acc).mantissa = m := by
  cases acc with
  | exact => rfl
  | inexact ordering => cases ordering <;> rfl

theorem lt_two_pow_of_bracket {m k : Nat} (hlog : m.log2 ≤ 52 + k) (hy : y < m + 1) :
    y / 2 ^ k < 2 ^ 53 := by
  have hm : m + 1 ≤ 2 ^ (53 + k) :=
    Nat.lt_log2_self.trans_le (Nat.pow_le_pow_right (by norm_num) (by omega))
  have hm' : (m : ℚ) + 1 ≤ 2 ^ (53 + k) := by exact_mod_cast hm
  rw [div_lt_iff₀ (by positivity), ← pow_add]
  linarith

theorem two_pow_le_of_bracket {m k : Nat} (hlog : m.log2 = 52 + k) (hy : (m : ℚ) ≤ y) :
    2 ^ 52 ≤ y / 2 ^ k := by
  have hpos : m ≠ 0 := by
    rintro rfl
    rw [show Nat.log2 0 = 0 from rfl] at hlog
    omega
  have hm : 2 ^ (52 + k) ≤ m := hlog ▸ Nat.log2_self_le hpos
  have hm' : (2 : ℚ) ^ (52 + k) ≤ m := by exact_mod_cast hm
  rw [le_div_iff₀ (by positivity), ← pow_add]
  linarith

theorem half_place_le_slack {m : Nat} {e : Int} (he : e ≤ lastPlace m e) (hy : (m : ℚ) ≤ y) :
    (2 : ℚ) ^ lastPlace m e / 2 ≤ slack (y * 2 ^ e) := by
  have hplace := lastPlace_eq m e
  have hpow : (0 : ℚ) < 2 ^ e := by positivity
  have hnonneg : 0 ≤ y * 2 ^ e := mul_nonneg ((Nat.cast_nonneg m).trans hy) hpow.le
  have htiny : (0 : ℚ) < 2 ^ (-1075 : Int) := by positivity
  unfold slack
  rw [abs_of_nonneg hnonneg]
  by_cases hmin : lastPlace m e = -1074
  · have hhalf : (2 : ℚ) ^ (-1074 : Int) / 2 = 2 ^ (-1075 : Int) := by
      rw [div_eq_iff (by norm_num), ← zpow_add_one₀ (by norm_num)]
      norm_num
    rw [hmin, hhalf]
    have := div_nonneg hnonneg (by norm_num : (0 : ℚ) ≤ 2 ^ 53)
    linarith
  · have hm : m ≠ 0 := by
      rintro rfl
      rw [show Nat.log2 0 = 0 from rfl] at hplace
      omega
    have hplace' : lastPlace m e = m.log2 + e - 52 := by omega
    have hlog : (2 : ℚ) ^ m.log2 ≤ m := by exact_mod_cast Nat.log2_self_le hm
    have hsplit : (2 : ℚ) ^ lastPlace m e / 2 = 2 ^ m.log2 * 2 ^ e / 2 ^ 53 := by
      rw [hplace', zpow_sub₀ (by norm_num), zpow_add₀ (by norm_num), zpow_natCast, div_div]
      norm_num
    have hle : (2 : ℚ) ^ m.log2 * 2 ^ e ≤ y * 2 ^ e :=
      mul_le_mul_of_nonneg_right (hlog.trans hy) hpow.le
    rw [hsplit]
    have := div_le_div_of_nonneg_right hle (by norm_num : (0 : ℚ) ≤ 2 ^ 53)
    linarith

/-- A number that a mantissa with residual bits locates is rounded to one written as doubles
are and hardly off, provided the mantissa has enough places. -/
theorem round_near (s : UnpackedFloat.Sign) {m : Nat} {e : Int} {acc : Accuracy}
    (hy : Brackets (ExtendedMantissa.ofMantissaAndAccuracy m acc) y) (he : e ≤ lastPlace m e) :
    Canonical (roundWithAccuracy Format.binary64 s m e acc) ∧
      |value (roundWithAccuracy Format.binary64 s m e acc) - signed s (y * 2 ^ e)| ≤
        slack (y * 2 ^ e) := by
  obtain ⟨hlow, hhigh⟩ := hy.floor
  rw [mantissa_ofMantissaAndAccuracy] at hlow hhigh
  have hplace := lastPlace_eq m e
  obtain ⟨k, hk⟩ : ∃ k : Nat, lastPlace m e = e + k := ⟨(lastPlace m e - e).toNat, by omega⟩
  have hshift : (lastPlace m e - e).toNat = k := by omega
  have hfirst := shiftToTargetExponent_eq m e acc
  rw [hshift, ← hk] at hfirst
  -- Of the bits that are left, the residual ones tell where the number lies.
  have hround := abs_le.mp (hy.shiftRight k).rounded
  set r := (ExtendedMantissa.ofMantissaAndAccuracy m acc >>> k).roundedMantissa
  have hr : r ≤ 2 ^ 53 := by
    have hlt := lt_two_pow_of_bracket (k := k) (by omega) hhigh
    have hlt' : (r : ℚ) < (2 ^ 53 + 1 : Nat) := by
      push_cast
      linarith
    exact Nat.le_of_lt_succ (by exact_mod_cast hlt')
  have hplaces : 2 ^ 52 ≤ r ∨ lastPlace m e = -1074 := by
    by_cases hmin : lastPlace m e = -1074
    · exact .inr hmin
    · have hle := two_pow_le_of_bracket (k := k) (by omega) hlow
      have hlt : ((2 ^ 52 : Nat) : ℚ) < (r + 1 : Nat) := by
        push_cast
        linarith
      exact .inl (Nat.le_of_lt_succ (by exact_mod_cast hlt))
  rw [roundWithAccuracy_eq s hfirst (by omega) hr]
  refine ⟨canonical_carried s (by omega) hplaces, ?_⟩
  have hy' : y * 2 ^ e = y / 2 ^ k * 2 ^ lastPlace m e := by
    rw [hk, zpow_add₀ (by norm_num : (2 : ℚ) ≠ 0), zpow_natCast, mul_comm ((2 : ℚ) ^ e),
      ← mul_assoc, div_mul_cancel₀ _ (by positivity)]
  rw [value_carried s hr, signed_sub, abs_signed]
  refine le_trans ?_ (half_place_le_slack he hlow)
  rw [hy', ← sub_mul, abs_mul, abs_of_pos (by positivity : (0 : ℚ) < 2 ^ lastPlace m e)]
  have := mul_le_mul_of_nonneg_right (abs_le.mpr hround)
    (by positivity : (0 : ℚ) ≤ 2 ^ lastPlace m e)
  linarith

end ConstraintNet.Binary64
