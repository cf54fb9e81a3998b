import ConstraintNet.Proofs.Rounding

/-!
# Doubles as rational numbers

What a finite double stands for, and how far each operation is from the exact one. Doubles
are packed from mantissa and exponent without loss, unless the exponent is too large.
-/

set_option autoImplicit false

namespace ConstraintNet.Binary64

open Float.Model UnpackedFloat

section Packing

variable {s : UnpackedFloat.Sign} {m : Nat} {e : Int}

theorem unpack_packedInfinity (s : UnpackedFloat.Sign) :
    unpack Format.binary64 (packedInfinity Format.binary64 s) = .infinity s := by
  cases s <;> rfl

theorem log2_eq_of_places (hm : m < 2 ^ 53) (hplaces : 2 ^ 52 ≤ m) : m.log2 = 52 :=
  (Nat.log2_eq_iff (by omega)).mpr ⟨hplaces, hm⟩

theorem toNat_implicit (m : BitVec 52) : (1#1 ++ m).toNat = 2 ^ 52 + m.toNat := by
  rw [BitVec.toNat_append, ← Nat.shiftLeft_add_eq_or_of_lt m.isLt]
  rfl

theorem unpack_normal {b : Nat} (hb : 0 < b) (hb' : b < 2047) (hm : m < 2 ^ 53)
    (hplaces : 2 ^ 52 ≤ m) (hpos : 0 < m) (he : e = b - 1075) :
    unpack Format.binary64 (packComponents Format.binary64 s (BitVec.ofNat 11 b)
      (BitVec.ofNat 52 m)) = .finite s m e hpos := by
  have hexponent : (BitVec.ofNat 11 b).toNat = b := by
    rw [BitVec.toNat_ofNat, Nat.mod_eq_of_lt (by omega)]
  have hfull : BitVec.ofNat 11 b ≠ -1#11 := by
    rw [BitVec.toNat_ne, hexponent]
    exact Nat.ne_of_lt hb'
  have hempty : BitVec.ofNat 11 b ≠ 0#11 := by
    rw [BitVec.toNat_ne, hexponent]
    exact Nat.ne_of_gt hb
  have hmantissa : (1#1 ++ BitVec.ofNat 52 m).toNat = m := by
    rw [toNat_implicit, BitVec.toNat_ofNat]
    omega
  unfold UnpackedFloat.unpack
  simp only [unpackMantissa_packComponents, unpackExponent_packComponents,
    unpackSign_packComponents, UnpackedFloat.Sign.ofBitVec_toBitVec, hfull, hempty, if_false,
    hexponent, hmantissa]
  congr 1
  rw [he]
  rfl

theorem unpack_subnormal (hm : m < 2 ^ 52) (hpos : 0 < m) :
    unpack Format.binary64 (packComponents Format.binary64 s 0#11 (BitVec.ofNat 52 m)) =
      .finite s m (-1074) hpos := by
  have hmantissa : (BitVec.ofNat 52 m).toNat = m := by
    rw [BitVec.toNat_ofNat, Nat.mod_eq_of_lt hm]
  have hsome : BitVec.ofNat 52 m ≠ 0#52 := by
    rw [BitVec.toNat_ne, hmantissa]
    exact Nat.ne_of_gt hpos
  have hfull : (0#11) ≠ -1#11 := by decide
  unfold UnpackedFloat.unpack
  simp only [unpackMantissa_packComponents, unpackExponent_packComponents,
    unpackSign_packComponents, UnpackedFloat.Sign.ofBitVec_toBitVec, hfull, hsome, if_false,
    if_true, hmantissa]
  rfl

theorem abs_value_finite (s : UnpackedFloat.Sign) (hm : 0 < m) :
    |value (.finite s m e hm)| = m * 2 ^ e := by
  rw [value_finite, abs_signed, abs_of_nonneg (by positivity)]

theorem pack_finite (hm : 0 < m) {b : Nat} (hb : (e + 1075).toNat = b) :
    pack Format.binary64 (.finite s m e hm) =
      if 2 ^ 11 ≤ b + 1 then packedInfinity Format.binary64 s
      else if m.log2 + 1 = 53 then
        packComponents Format.binary64 s (BitVec.ofNat 11 b) (BitVec.ofNat 52 m)
      else packComponents Format.binary64 s 0#11 (BitVec.ofNat 52 m) := by
  have hbias : e + ((Format.binary64.exponentBias : Nat) : Int) + (52 : Nat) = e + 1075 := by
    change e + 1023 + 52 = _
    omega
  subst hb
  rw [← hbias]
  rfl

/-- A number written as doubles are comes back from its bits, unless its exponent is too
large: then it has become infinite. -/
theorem unpack_pack {u : UnpackedFloat} (hu : Canonical u) :
    unpack Format.binary64 (pack Format.binary64 u) = u ∨
      (∃ s, unpack Format.binary64 (pack Format.binary64 u) = .infinity s) ∧
        (2 : ℚ) ^ 1024 ≤ |value u| := by
  cases u with
  | infinity s | notANumber => exact hu.elim
  | zero s => exact .inl unpack_packedZero
  | finite s m e hm =>
    obtain ⟨hfits, hmin, hplaces⟩ := hu
    rw [pack_finite hm rfl]
    by_cases hbig : 972 ≤ e
    · rw [if_pos (by omega)]
      refine .inr ⟨⟨s, unpack_packedInfinity s⟩, ?_⟩
      have hm' : (2 : ℚ) ^ 52 ≤ m := by exact_mod_cast hplaces.resolve_right (by omega)
      have he' : (2 : ℚ) ^ (972 : Int) ≤ 2 ^ e := zpow_le_zpow_right₀ (by norm_num) hbig
      have hpow : (2 : ℚ) ^ 1024 = 2 ^ 52 * 2 ^ (972 : Int) := by rw [zpow_ofNat, ← pow_add]
      rw [abs_value_finite, hpow]
      exact mul_le_mul hm' he' (by positivity) (by positivity)
    · left
      rw [if_neg (by omega)]
      by_cases hn : 2 ^ 52 ≤ m
      · rw [log2_eq_of_places hfits hn, if_pos rfl]
        exact unpack_normal (by omega) (by omega) hfits hn hm (by omega)
      · have hlog : m.log2 ≤ 51 := log2_le_of_lt (by omega)
        obtain rfl : e = -1074 := hplaces.resolve_left hn
        rw [if_neg (by omega)]
        exact unpack_subnormal (by omega) hm

end Packing

def toRat (x : Float) : ℚ := value x.toModel.unpack

section Shape

variable {x y : Float}

theorem isFinite_iff : x.isFinite ↔ x.toModel.unpack.isFinite := Iff.rfl

theorem abs_value_lt {s : UnpackedFloat.Sign} {m : Nat} {e : Int} {hm : 0 < m}
    (hfits : m < 2 ^ 53) (he : e ≤ 971) : |value (.finite s m e hm)| < 2 ^ 1024 := by
  have hm' : (m : ℚ) < 2 ^ 53 := by exact_mod_cast hfits
  have he' : (2 : ℚ) ^ e ≤ 2 ^ (971 : Int) := zpow_le_zpow_right₀ (by norm_num) he
  have hpow : (2 : ℚ) ^ 53 * 2 ^ (971 : Int) = 2 ^ 1024 := by rw [zpow_ofNat, ← pow_add]
  rw [abs_value_finite, ← hpow]
  exact mul_lt_mul hm' he' (by positivity) (by positivity)

theorem unpack_bounds {b : BitVec 64} (hb : (unpack Format.binary64 b).isFinite) :
    Canonical (unpack Format.binary64 b) ∧ |value (unpack Format.binary64 b)| < 2 ^ 1024 := by
  have hbias : ((Format.binary64.exponentBias : Nat) : Int) + (52 : Nat) = 1075 := rfl
  have hmantissa : (@unpackMantissa Format.binary64 b).toNat < 2 ^ 52 := BitVec.isLt _
  have hexponent : (@unpackExponent Format.binary64 b).toNat < 2 ^ 11 := BitVec.isLt _
  unfold UnpackedFloat.unpack at hb ⊢
  simp only [hbias] at hb ⊢
  split
  · rename_i hfull
    rw [if_pos hfull] at hb
    split at hb <;> cases hb
  · rename_i hfull
    split
    · rename_i hempty
      split
      · exact ⟨trivial, by simp [value]⟩
      · rw [hempty]
        exact ⟨⟨by omega, by simp, .inr (by simp)⟩, abs_value_lt (by omega) (by simp)⟩
    · rename_i hempty
      have hlow : (@unpackExponent Format.binary64 b).toNat ≠ 0 := fun h =>
        hempty (BitVec.eq_of_toNat_eq h)
      have hhigh : (@unpackExponent Format.binary64 b).toNat ≠ 2047 := fun h =>
        hfull (BitVec.eq_of_toNat_eq h)
      have hplaces := toNat_implicit (@unpackMantissa Format.binary64 b)
      exact ⟨⟨by omega, by omega, .inl (by omega)⟩, abs_value_lt (by omega) (by omega)⟩

theorem canonical_unpack (hx : x.isFinite) : Canonical x.toModel.unpack := (unpack_bounds hx).1

theorem abs_toRat_lt (hx : x.isFinite) : |toRat x| < 2 ^ 1024 := (unpack_bounds hx).2

end Shape

section Operations

variable {u v : UnpackedFloat} {q : ℚ}

/-- A result is written as doubles are and is hardly off the exact one. -/
def Near (u : UnpackedFloat) (q : ℚ) : Prop := Canonical u ∧ |value u - q| ≤ slack q

theorem slack_nonneg (q : ℚ) : 0 ≤ slack q := by
  unfold slack
  positivity

theorem Canonical.near (hu : Canonical u) : Near u (value u) := by
  exact ⟨hu, by simpa using slack_nonneg _⟩

theorem near_zero (s : UnpackedFloat.Sign) : Near (.zero s) 0 :=
  Canonical.near (u := .zero s) trivial

theorem canonical_neg (hu : Canonical u) : Canonical u.neg := by
  cases u <;> exact hu

theorem value_neg (u : UnpackedFloat) : value u.neg = -value u := by
  cases u with
  | finite s m e hm =>
    cases s with
    | positive => rfl
    | negative => exact (neg_neg _).symm
  | _ => exact neg_zero.symm

theorem value_shiftLeft (m k : Nat) (e : Int) :
    ((m <<< k : Nat) : ℚ) * 2 ^ (e - k) = m * 2 ^ e := by
  rw [Nat.shiftLeft_eq, zpow_sub₀ (by norm_num), zpow_natCast]
  push_cast
  rw [mul_assoc, mul_div_cancel₀ _ (by positivity)]

theorem log2_shiftLeft {m : Nat} (hm : 0 < m) (k : Nat) : (m <<< k).log2 = m.log2 + k := by
  obtain ⟨hlow, hhigh⟩ := (Nat.log2_eq_iff hm.ne').mp rfl
  have hpow : 0 < 2 ^ k := by positivity
  rw [Nat.shiftLeft_eq, Nat.log2_eq_iff (by positivity)]
  constructor
  · rw [pow_add]
    exact Nat.mul_le_mul_right _ hlow
  · rw [show m.log2 + k + 1 = m.log2 + 1 + k by omega, pow_add]
    exact Nat.mul_lt_mul_of_pos_right hhigh hpow

theorem near_round (s : UnpackedFloat.Sign) {m : Nat} (hm : 0 < m) (e : Int) :
    Near (round Format.binary64 s m e) (signed s (m * 2 ^ e)) := by
  have hlog := log2_shiftLeft hm (e - lastPlace m e).toNat
  have hplace := lastPlace_eq m e
  have hplace' := lastPlace_eq (m <<< (e - lastPlace m e).toNat) (e - (e - lastPlace m e).toNat)
  have hnear := round_near s (brackets_exact (m <<< (e - lastPlace m e).toNat))
    (show e - ((e - lastPlace m e).toNat : Int) ≤ lastPlace _ _ by omega)
  rw [value_shiftLeft] at hnear
  refine ⟨hnear.1, hnear.2.trans ?_⟩
  rw [slack_signed]

theorem near_normalize (n : Int) (e : Int) (s : UnpackedFloat.Sign) :
    Near (UnpackedFloat.normalize Format.binary64 n e s) (n * 2 ^ e) := by
  unfold UnpackedFloat.normalize
  cases hn : compare n 0 with
  | lt =>
    have hneg : n < 0 := Int.compare_eq_lt.mp hn
    have hcast : (((-n).toNat : Nat) : ℚ) = -n := by
      exact_mod_cast Int.toNat_of_nonneg (by omega : 0 ≤ -n)
    have hnear := near_round .negative (by omega : 0 < (-n).toNat) e
    rwa [hcast, signed, neg_mul, neg_neg] at hnear
  | eq =>
    have hzero : n = 0 := Int.compare_eq_eq.mp hn
    rw [hzero, Int.cast_zero, zero_mul]
    exact near_zero s
  | gt =>
    have hpos : 0 < n := Int.compare_eq_gt.mp hn
    have hcast : ((n.toNat : Nat) : ℚ) = n := by
      exact_mod_cast Int.toNat_of_nonneg (by omega : 0 ≤ n)
    have hnear := near_round .positive (by omega : 0 < n.toNat) e
    rwa [hcast, signed] at hnear

theorem cast_apply (s : UnpackedFloat.Sign) (n : Nat) :
    ((s.apply (n : Int) : Int) : ℚ) = signed s n := by
  cases s with
  | positive => exact Int.cast_natCast n
  | negative => exact (Int.cast_neg _).trans (congrArg Neg.neg (Int.cast_natCast n))

theorem signed_mul (s : UnpackedFloat.Sign) (p q : ℚ) : signed s p * q = signed s (p * q) := by
  cases s with
  | positive => rfl
  | negative => exact neg_mul p q

theorem value_aligned (s : UnpackedFloat.Sign) {m : Nat} {e target : Int} (hm : 0 < m)
    (ht : target ≤ e) : ((s.apply ((decreaseExponent m e target).1 : Int) : Int) : ℚ) * 2 ^ target =
      value (.finite s m e hm) := by
  have hexponent : e - ((e - target).toNat : Int) = target := by omega
  have hshift := value_shiftLeft m (e - target).toNat e
  rw [hexponent] at hshift
  rw [cast_apply, signed_mul, value_finite, ← hshift]
  rfl

theorem value_zero (s : UnpackedFloat.Sign) : value (.zero s) = 0 := rfl

theorem near_add (hu : Canonical u) (hv : Canonical v) :
    Near (UnpackedFloat.add Format.binary64 u v) (value u + value v) := by
  cases u with
  | infinity s | notANumber => exact hu.elim
  | zero s =>
    rw [value_zero, zero_add]
    cases v with
    | infinity s | notANumber => exact hv.elim
    | zero t => cases s <;> cases t <;> exact near_zero _
    | finite t n f hn => exact hv.near
  | finite s m e hm =>
    cases v with
    | infinity s | notANumber => exact hv.elim
    | zero t =>
      rw [value_zero, add_zero]
      exact hu.near
    | finite t n f hn =>
      rw [← value_aligned s hm (min_le_left e f), ← value_aligned t hn (min_le_right e f),
        ← add_mul, ← Int.cast_add]
      exact near_normalize _ _ _

theorem apply_neg (s : UnpackedFloat.Sign) (n : Int) : (-s).apply n = -s.apply n := by
  cases s with
  | positive => rfl
  | negative => exact (neg_neg n).symm

theorem unpacked_sub_eq (hu : Canonical u) (hv : Canonical v) :
    UnpackedFloat.sub Format.binary64 u v = UnpackedFloat.add Format.binary64 u v.neg := by
  cases u with
  | infinity s | notANumber => exact hu.elim
  | zero s =>
    cases v with
    | infinity s | notANumber => exact hv.elim
    | zero t => rfl
    | finite t n f hn => rfl
  | finite s m e hm =>
    cases v with
    | infinity s | notANumber => exact hv.elim
    | zero t => rfl
    | finite t n f hn =>
      simp only [UnpackedFloat.sub, UnpackedFloat.neg, UnpackedFloat.add, apply_neg,
        Int.sub_eq_add_neg]

theorem near_sub (hu : Canonical u) (hv : Canonical v) :
    Near (UnpackedFloat.sub Format.binary64 u v) (value u - value v) := by
  have hadd := near_add hu (canonical_neg hv)
  rwa [value_neg, ← Rat.sub_eq_add_neg, ← unpacked_sub_eq hu hv] at hadd

/-- With all places of a mantissa in use, or as small as exponents get, there are places
enough to round. -/
theorem le_lastPlace {m : Nat} {e : Int} (hm : 2 ^ 52 ≤ m ∨ e ≤ -1074) : e ≤ lastPlace m e := by
  have hplace := lastPlace_eq m e
  rcases hm with hplaces | hmin
  · have hlog : 52 ≤ m.log2 := (Nat.le_log2 (by omega)).mpr hplaces
    omega
  · omega

theorem signed_mul_signed (s t : UnpackedFloat.Sign) (p q : ℚ) :
    signed s p * signed t q = signed (s * t) (p * q) := by
  cases s <;> cases t
  · exact neg_mul_neg p q
  · exact neg_mul p q
  · exact mul_neg p q
  · rfl

theorem near_mul (hu : Canonical u) (hv : Canonical v) :
    Near (UnpackedFloat.mul Format.binary64 u v) (value u * value v) := by
  cases u with
  | infinity s | notANumber => exact hu.elim
  | zero s =>
    rw [value_zero, zero_mul]
    cases v with
    | infinity s | notANumber => exact hv.elim
    | zero t | finite t n f hn => exact near_zero _
  | finite s m e hm =>
    cases v with
    | infinity s | notANumber => exact hv.elim
    | zero t =>
      rw [value_zero, mul_zero]
      exact near_zero _
    | finite t n f hn =>
      have hplaces : 2 ^ 52 ≤ m * n ∨ e + f ≤ -1074 := by
        rcases hu.2.2 with hm' | he
        · exact .inl (hm'.trans (Nat.le_mul_of_pos_right m hn))
        · rcases hv.2.2 with hn' | hf
          · exact .inl (hn'.trans (Nat.le_mul_of_pos_left n hm))
          · exact .inr (by omega)
      have hnear := round_near (s * t) (brackets_exact (m * n)) (le_lastPlace hplaces)
      have hvalue : value (.finite s m e hm) * value (.finite t n f hn) =
          signed (s * t) ((m * n : Nat) * 2 ^ (e + f)) := by
        rw [value_finite, value_finite, signed_mul_signed, zpow_add₀ (by norm_num)]
        push_cast
        congr 1
        ring
      rw [hvalue]
      exact ⟨hnear.1, hnear.2.trans_eq (slack_signed _ _).symm⟩

theorem signed_div_signed (s t : UnpackedFloat.Sign) (p q : ℚ) :
    signed s p / signed t q = signed (s / t) (p / q) := by
  cases s <;> cases t
  · exact neg_div_neg_eq p q
  · exact neg_div q p
  · exact div_neg p
  · rfl

/-- The dividend is shifted so far that the quotient has places enough to round. -/
theorem divCore_places {m n : Nat} (hm : 0 < m) (hn : 0 < n) (e f : Int) :
    ∃ k : Nat, divCore Format.binary64 m e n f =
        ((m <<< k) / n, e - f - k, accuracyOfFraction ((m <<< k) % n) n) ∧
      (2 ^ 52 ≤ (m <<< k) / n ∨ e - f - k ≤ -1074) := by
  have hplace : Format.binary64.targetExponent (totalExponent m e - totalExponent n f) =
      max (m.log2 + e - (n.log2 + f) - 53) (-1074) := by
    simp only [Format.targetExponent, totalExponent, Format.mantissaBits, Format.minExponent]
    norm_num
    omega
  set target := min (e - f)
    (Format.binary64.targetExponent (totalExponent m e - totalExponent n f)) with htarget
  obtain ⟨k, hk⟩ : ∃ k : Nat, (e - f - target).toNat = k := ⟨_, rfl⟩
  have hexponent : target = e - f - k := by omega
  refine ⟨k, ?_, ?_⟩
  · rw [← hexponent, ← hk]
    rfl
  · by_cases hmin : e - f - k ≤ -1074
    · exact .inr hmin
    · left
      have hlog : n.log2 + 53 ≤ (m <<< k).log2 := by
        rw [log2_shiftLeft hm]
        omega
      have hlarge : 2 ^ (n.log2 + 53) ≤ m <<< k :=
        (Nat.le_log2 (Nat.shiftLeft_pos_iff.mpr hm).ne').mp hlog
      have hsmall : n < 2 ^ (n.log2 + 1) := Nat.lt_log2_self
      rw [Nat.le_div_iff_mul_le hn]
      calc 2 ^ 52 * n ≤ 2 ^ 52 * 2 ^ (n.log2 + 1) := Nat.mul_le_mul_left _ hsmall.le
        _ = 2 ^ (n.log2 + 53) := by rw [← pow_add]; congr 1; omega
        _ ≤ m <<< k := hlarge

theorem near_div (hu : Canonical u) (hv : Canonical v) (hzero : value v ≠ 0) :
    Near (UnpackedFloat.div Format.binary64 u v) (value u / value v) := by
  cases v with
  | infinity s | notANumber => exact hv.elim
  | zero t => exact absurd rfl hzero
  | finite t n f hn =>
    cases u with
    | infinity s | notANumber => exact hu.elim
    | zero s =>
      rw [value_zero, zero_div]
      exact near_zero _
    | finite s m e hm =>
      obtain ⟨k, hcore, hplaces⟩ := divCore_places hm hn e f
      have hnear := round_near (s / t) (brackets_fraction (m <<< k) hn) (le_lastPlace hplaces)
      have hvalue : value (.finite s m e hm) / value (.finite t n f hn) =
          signed (s / t) ((m <<< k : Nat) / n * 2 ^ (e - f - k)) := by
        rw [value_finite, value_finite, signed_div_signed, ← value_shiftLeft m k e,
          show e - f - k = e - k - f by omega, zpow_sub₀ (by norm_num) (e - k)]
        congr 1
        ring
      rw [hvalue, UnpackedFloat.div, hcore]
      exact ⟨hnear.1, hnear.2.trans_eq (slack_signed _ _).symm⟩

end Operations

section Order

variable {u v : UnpackedFloat} {x y : Float}

theorem lt_of_exponent_lt {m n : Nat} {e f : Int} (hm : m < 2 ^ 53) (hn : 2 ^ 52 ≤ n) (h : e < f) :
    (m * 2 ^ e : ℚ) < n * 2 ^ f := by
  have hm' : (m : ℚ) < 2 ^ 53 := by exact_mod_cast hm
  have hn' : (2 : ℚ) ^ 52 ≤ n := by exact_mod_cast hn
  have hpow : (2 : ℚ) ^ (e + 1) ≤ 2 ^ f := zpow_le_zpow_right₀ (by norm_num) (by omega)
  calc (m * 2 ^ e : ℚ) < 2 ^ 53 * 2 ^ e := mul_lt_mul_of_pos_right hm' (by positivity)
    _ = 2 ^ 52 * 2 ^ (e + 1) := by rw [zpow_add_one₀ (by norm_num)]; ring
    _ ≤ n * 2 ^ f := mul_le_mul hn' hpow (by positivity) (by positivity)

theorem compare_places {s t : UnpackedFloat.Sign} {m n : Nat} {e f : Int} {hm : 0 < m} {hn : 0 < n}
    (hu : Canonical (.finite s m e hm)) (hv : Canonical (.finite t n f hn)) :
    (compare e f).then (compare m n) = compare (m * 2 ^ e : ℚ) (n * 2 ^ f) := by
  obtain ⟨hm53, hemin, hmplaces⟩ := hu
  obtain ⟨hn53, hfmin, hnplaces⟩ := hv
  -- the larger exponent is not the least one, so all places of its mantissa are in use
  rcases lt_trichotomy e f with h | rfl | h
  · have hlt := lt_of_exponent_lt hm53 (hnplaces.resolve_right (by omega)) h
    rw [compare_lt_iff_lt.mpr hlt, Int.compare_eq_lt.mpr h]
    rfl
  · have hpow : (0 : ℚ) < 2 ^ e := by positivity
    rw [Int.compare_eq_eq.mpr rfl]
    change compare m n = _
    rcases lt_trichotomy m n with h | rfl | h
    · have hlt : (m * 2 ^ e : ℚ) < n * 2 ^ e :=
        mul_lt_mul_of_pos_right (by exact_mod_cast h) hpow
      rw [compare_lt_iff_lt.mpr hlt, Nat.compare_eq_lt.mpr h]
    · rw [Nat.compare_eq_eq.mpr rfl, compare_eq_iff_eq.mpr rfl]
    · have hlt : (n * 2 ^ e : ℚ) < m * 2 ^ e :=
        mul_lt_mul_of_pos_right (by exact_mod_cast h) hpow
      rw [compare_gt_iff_gt.mpr hlt, Nat.compare_eq_gt.mpr h]
  · have hlt := lt_of_exponent_lt hn53 (hmplaces.resolve_right (by omega)) h
    rw [compare_gt_iff_gt.mpr hlt, Int.compare_eq_gt.mpr h]
    rfl

theorem compare_neg_neg (p q : ℚ) : compare (-p) (-q) = (compare p q).swap := by
  rcases lt_trichotomy p q with h | rfl | h
  · rw [compare_lt_iff_lt.mpr h, compare_gt_iff_gt.mpr (neg_lt_neg h)]
    rfl
  · rw [compare_eq_iff_eq.mpr rfl, compare_eq_iff_eq.mpr rfl]
    rfl
  · rw [compare_gt_iff_gt.mpr h, compare_lt_iff_lt.mpr (neg_lt_neg h)]
    rfl

theorem compare_eq (hu : Canonical u) (hv : Canonical v) :
    UnpackedFloat.compare u v = some (compare (value u) (value v)) := by
  cases u with
  | infinity s | notANumber => exact hu.elim
  | zero s =>
    cases v with
    | infinity s | notANumber => exact hv.elim
    | zero t => exact congrArg some (compare_eq_iff_eq.mpr rfl).symm
    | finite t n f hn =>
      have hpos : (0 : ℚ) < n * 2 ^ f := by positivity
      cases t with
      | positive => exact congrArg some (compare_lt_iff_lt.mpr hpos).symm
      | negative => exact congrArg some (compare_gt_iff_gt.mpr (neg_lt_zero.mpr hpos)).symm
  | finite s m e hm =>
    have hpos : (0 : ℚ) < m * 2 ^ e := by positivity
    cases v with
    | infinity s | notANumber => exact hv.elim
    | zero t =>
      cases s with
      | positive => exact congrArg some (compare_gt_iff_gt.mpr hpos).symm
      | negative => exact congrArg some (compare_lt_iff_lt.mpr (neg_lt_zero.mpr hpos)).symm
    | finite t n f hn =>
      have hpos' : (0 : ℚ) < n * 2 ^ f := by positivity
      cases s with
      | positive =>
        cases t with
        | positive => exact congrArg some (compare_places hu hv)
        | negative =>
          have hlt : -(n * 2 ^ f : ℚ) < m * 2 ^ e := (neg_lt_zero.mpr hpos').trans hpos
          exact congrArg some (compare_gt_iff_gt.mpr hlt).symm
      | negative =>
        cases t with
        | positive =>
          have hlt : -(m * 2 ^ e : ℚ) < n * 2 ^ f := (neg_lt_zero.mpr hpos).trans hpos'
          exact congrArg some (compare_lt_iff_lt.mpr hlt).symm
        | negative =>
          have hswap := compare_neg_neg (m * 2 ^ e) (n * 2 ^ f)
          rw [← compare_places hu hv] at hswap
          exact congrArg some hswap.symm

theorem lt_iff (hx : x.isFinite) (hy : y.isFinite) : x < y ↔ toRat x < toRat y := by
  change decide (UnpackedFloat.lt x.toModel.unpack y.toModel.unpack = true) = true ↔ _
  rw [decide_eq_true_iff, UnpackedFloat.lt, compare_eq (canonical_unpack hx) (canonical_unpack hy),
    ← compare_lt_iff_lt]
  unfold toRat
  cases compare (value x.toModel.unpack) (value y.toModel.unpack) <;> decide

theorem le_iff (hx : x.isFinite) (hy : y.isFinite) : x ≤ y ↔ toRat x ≤ toRat y := by
  change decide (UnpackedFloat.le x.toModel.unpack y.toModel.unpack = true) = true ↔ _
  rw [decide_eq_true_iff, UnpackedFloat.le, compare_eq (canonical_unpack hx) (canonical_unpack hy),
    Option.any_some, ← not_lt, ← compare_gt_iff_gt]
  unfold toRat
  cases compare (value x.toModel.unpack) (value y.toModel.unpack) <;> decide

end Order

section Rounded

variable {x y : Float} {u : UnpackedFloat} {q : ℚ}

/-- A double is what an exact result is rounded to: hardly off, unless it has become infinite,
which only a very large one does. -/
structure Rounds (x : Float) (q : ℚ) : Prop where
  near : x.isFinite → |toRat x - q| ≤ slack q
  finite : |q| ≤ 2 ^ 1000 → x.isFinite

theorem unpack_ofModel (u : UnpackedFloat) : (Float.ofModel (Float.Model.pack u)).toModel.unpack =
    unpack Format.binary64 (pack Format.binary64 u) := rfl

theorem toRat_ofModel (hu : Canonical u)
    (hf : (Float.ofModel (Float.Model.pack u)).isFinite) :
    toRat (Float.ofModel (Float.Model.pack u)) = value u := by
  rw [isFinite_iff, unpack_ofModel] at hf
  rw [toRat, unpack_ofModel]
  rcases unpack_pack hu with hsame | ⟨⟨s, hinfinite⟩, -⟩
  · rw [hsame]
  · rw [hinfinite] at hf
    cases hf

theorem isFinite_ofModel (hu : Canonical u) (hsmall : |value u| < 2 ^ 1024) :
    (Float.ofModel (Float.Model.pack u)).isFinite := by
  rw [isFinite_iff, unpack_ofModel]
  rcases unpack_pack hu with hsame | ⟨-, hlarge⟩
  · rw [hsame]
    cases u with
    | infinity s | notANumber => exact hu.elim
    | zero s | finite s m e hm => rfl
  · exact absurd hlarge (not_le.mpr hsmall)

theorem slack_le (q : ℚ) : slack q ≤ |q| + 1 := by
  have htiny : (2 : ℚ) ^ (-1075 : Int) ≤ 1 := zpow_le_one_of_nonpos₀ (by norm_num) (by norm_num)
  exact add_le_add (div_le_self (abs_nonneg q) (by norm_num)) htiny

theorem Near.rounds (h : Near u q) : Rounds (Float.ofModel (Float.Model.pack u)) q where
  near hf := by
    rw [toRat_ofModel h.1 hf]
    exact h.2
  finite hq := by
    apply isFinite_ofModel h.1
    have hpow : (2 : ℚ) ^ 1024 = 2 ^ 1000 * 2 ^ 24 := by rw [← pow_add]
    have hbig : (1 : ℚ) ≤ 2 ^ 1000 := one_le_pow₀ (by norm_num)
    generalize (2 : ℚ) ^ 1000 = big at hq hpow hbig
    calc |value u| ≤ |value u - q| + |q| := by simpa using abs_add_le (value u - q) q
      _ ≤ |q| + 1 + |q| := by linarith [h.2, slack_le q]
      _ < big * 2 ^ 24 := by linarith only [hq, hbig]
      _ = 2 ^ 1024 := hpow.symm

theorem add_rounds (hx : x.isFinite) (hy : y.isFinite) : Rounds (x + y) (toRat x + toRat y) :=
  (near_add (canonical_unpack hx) (canonical_unpack hy)).rounds

theorem sub_rounds (hx : x.isFinite) (hy : y.isFinite) : Rounds (x - y) (toRat x - toRat y) :=
  (near_sub (canonical_unpack hx) (canonical_unpack hy)).rounds

theorem mul_rounds (hx : x.isFinite) (hy : y.isFinite) : Rounds (x * y) (toRat x * toRat y) :=
  (near_mul (canonical_unpack hx) (canonical_unpack hy)).rounds

theorem div_rounds (hx : x.isFinite) (hy : y.isFinite) (hzero : toRat y ≠ 0) :
    Rounds (x / y) (toRat x / toRat y) :=
  (near_div (canonical_unpack hx) (canonical_unpack hy) hzero).rounds

theorem canonical_abs (hu : Canonical u) : Canonical u.abs := by
  cases u <;> exact hu

theorem value_abs (u : UnpackedFloat) : value u.abs = |value u| := by
  cases u with
  | finite s m e hm => exact (abs_value_finite s hm).symm
  | _ => exact (abs_eq_self.mpr le_rfl).symm

theorem isFinite_abs (hx : x.isFinite) : x.abs.isFinite := by
  apply isFinite_ofModel (canonical_abs (canonical_unpack hx))
  rw [value_abs, abs_abs]
  exact abs_toRat_lt hx

theorem toRat_abs (hx : x.isFinite) : toRat x.abs = |toRat x| := by
  have hf := isFinite_abs hx
  exact (toRat_ofModel (canonical_abs (canonical_unpack hx)) hf).trans (value_abs _)

end Rounded

end ConstraintNet.Binary64
