import ConstraintNet.Config

/-!
# A value agrees with itself

The difference of a finite double from itself is zero, which is within every
tolerance that settings may have.
-/

set_option autoImplicit false

namespace ConstraintNet

open Float.Model

theorem apply_sub_self (sign : UnpackedFloat.Sign) (n : Int) : sign.apply n - sign.apply n = 0 := by
  omega

theorem unpacked_sub_self {x : UnpackedFloat} (hx : x.isFinite) :
    UnpackedFloat.sub Format.binary64 x x = .zero .positive := by
  cases x with
  | notANumber => cases hx
  | infinity sign => cases hx
  | zero sign => cases sign <;> rfl
  | finite sign mantissa exponent hm =>
    dsimp only [UnpackedFloat.sub]
    rw [apply_sub_self]
    rfl

theorem sub_self {x : Float} (hx : x.isFinite) : x - x = 0 := by
  change Float.ofModel (Float.Model.pack (UnpackedFloat.sub Format.binary64 _ _)) = 0
  rw [unpacked_sub_self hx]
  decide +kernel

theorem abs_zero : (0 : Float).abs = 0 := by decide +kernel

theorem unpack_zero : (0 : Float).toModel.unpack = .zero .positive := by rfl

theorem zero_le {x : Float} (hx : x.isFinite) (hn : ¬ x < 0) : 0 ≤ x := by
  change decide (UnpackedFloat.le (0 : Float).toModel.unpack x.toModel.unpack = true) = true
  change ¬ decide (x.toModel.unpack.lt (0 : Float).toModel.unpack = true) = true at hn
  change x.toModel.unpack.isFinite = true at hx
  rw [unpack_zero] at *
  cases hu : x.toModel.unpack with
  | notANumber =>
    rw [hu] at hx
    cases hx
  | infinity sign =>
    rw [hu] at hx
    cases hx
  | zero sign => rfl
  | finite sign mantissa exponent hm =>
    rw [hu] at hn
    cases sign with
    | positive => rfl
    | negative => exact absurd rfl hn

theorem abs_sub_self_le {c : Config} (hc : c.flaw? = none) {x : Float} (hx : x.isFinite) :
    (x - x).abs ≤ c.tolerance := by
  rw [sub_self hx, abs_zero]
  unfold Config.flaw? at hc
  split at hc
  · cases hc
  · rename_i hflawless
    simp only [Bool.or_eq_true, Bool.not_eq_true', decide_eq_true_eq, not_or,
      Bool.not_eq_false] at hflawless
    exact zero_le hflawless.1 hflawless.2

end ConstraintNet
