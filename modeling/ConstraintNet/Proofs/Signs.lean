import Mathlib
import ConstraintNet.Decimal.Reading

/-!
# Numbers without a sign

A double that is read from a text without a sign has none either. Products and quotients of
numbers without a sign have no sign, however they are rounded and also where they become
infinite, and a double is packed with the sign that it has.
-/

set_option autoImplicit false

namespace ConstraintNet.Decimal

open Float.Model hiding pack unpack
open UnpackedFloat

/-- A number is not below zero and is not `-0`. What is not a number has no sign. -/
def Unsigned : UnpackedFloat → Prop
  | .finite s _ _ _ | .zero s | .infinity s => s = .positive
  | .notANumber => True

section Operations

variable {u v : UnpackedFloat}

theorem unsigned_roundWithAccuracy (m : Nat) (e : Int) (acc : Accuracy) :
    Unsigned (roundWithAccuracy Format.binary64 .positive m e acc) := by
  unfold roundWithAccuracy
  dsimp only
  split <;> rfl

theorem Unsigned.mul (hu : Unsigned u) (hv : Unsigned v) :
    Unsigned (UnpackedFloat.mul Format.binary64 u v) := by
  cases u <;> cases v <;> simp only [Unsigned] at hu hv <;> subst_vars <;> try trivial
  exact unsigned_roundWithAccuracy _ _ _

theorem Unsigned.div (hu : Unsigned u) (hv : Unsigned v) :
    Unsigned (UnpackedFloat.div Format.binary64 u v) := by
  cases u <;> cases v <;> simp only [Unsigned] at hu hv <;> subst_vars <;> try trivial
  exact unsigned_roundWithAccuracy _ _ _

theorem unsigned_ofNat (n : Nat) : Unsigned (UnpackedFloat.ofNat Format.binary64 n) := by
  change Unsigned (UnpackedFloat.normalize Format.binary64 n 0 .positive)
  unfold UnpackedFloat.normalize
  split
  · rename_i hlt
    have : (n : Int) < 0 := Int.compare_eq_lt.mp hlt
    omega
  · rfl
  · exact unsigned_roundWithAccuracy _ _ _

theorem unsigned_ofScientific (m : Nat) (e : Int) :
    Unsigned (UnpackedFloat.ofScientific Format.binary64 m e) := by
  unfold UnpackedFloat.ofScientific
  split
  · rfl
  · split
    · rfl
    · split
      · rfl
      · split
        · exact Unsigned.mul rfl rfl
        · exact Unsigned.div rfl rfl

end Operations

section Bits

variable {u : UnpackedFloat} {x y : Float}

theorem unpackSign_pack (hu : Unsigned u) : unpackSign (pack Format.binary64 u) = 0#1 := by
  cases u with
  | notANumber => exact unpackSign_packComponents _ _ _
  | zero s | infinity s =>
    obtain rfl : s = .positive := hu
    exact unpackSign_packComponents _ _ _
  | finite s m e hm =>
    obtain rfl : s = .positive := hu
    unfold pack
    dsimp only
    split
    · exact unpackSign_packComponents _ _ _
    · split <;> exact unpackSign_packComponents _ _ _

theorem unsigned_unpack {b : BitVec Format.binary64.numBits} (hb : unpackSign b = 0#1) :
    Unsigned (unpack Format.binary64 b) := by
  unfold unpack
  dsimp only
  rw [hb]
  split
  · split
    · rfl
    · trivial
  · split
    · split <;> rfl
    · rfl

theorem isNegative_eq_false_iff :
    isNegative x = false ↔ @unpackSign Format.binary64 x.toBits.toBitVec = 0#1 := by
  have hlt : x.toBits.toNat < 2 ^ 64 := x.toBits.toBitVec.isLt
  have hsign : (@unpackSign Format.binary64 x.toBits.toBitVec).toNat = x.toBits.toNat / 2 ^ 63 := by
    rw [unpackSign_def, BitVec.extractLsb'_toNat]
    change x.toBits.toNat >>> 63 % 2 = _
    rw [Nat.shiftRight_eq_div_pow]
    omega
  have hbound : binadeCount * binadeSize = 2 ^ 63 := rfl
  rw [BitVec.toNat_eq, hsign, isNegative, hbound, decide_eq_false_iff_not]
  change _ ↔ _ = 0
  omega

theorem unsigned_toModel (hx : isNegative x = false) : Unsigned x.toModel.unpack :=
  unsigned_unpack (isNegative_eq_false_iff.mp hx)

theorem isNegative_ofModel (hu : Unsigned u) :
    isNegative (Float.ofModel (Float.Model.pack u)) = false :=
  isNegative_eq_false_iff.mpr (unpackSign_pack hu)

theorem isNegative_mul (hx : isNegative x = false) (hy : isNegative y = false) :
    isNegative (x * y) = false :=
  isNegative_ofModel ((unsigned_toModel hx).mul (unsigned_toModel hy))

theorem isNegative_div (hx : isNegative x = false) (hy : isNegative y = false) :
    isNegative (x / y) = false :=
  isNegative_ofModel ((unsigned_toModel hx).div (unsigned_toModel hy))

end Bits

theorem isNegative_powerOfTen : ∀ x ∈ Float.exactlyRepresentablePowersOfTen,
    isNegative x = false := by
  decide +kernel

theorem isNegative_ofScientific (m : Nat) (s : Bool) (e : Nat) :
    isNegative (Float.ofScientific m s e) = false := by
  unfold Float.ofScientific
  split
  · rename_i h
    have hm : isNegative m.toUInt64.toFloat = false := isNegative_ofModel (unsigned_ofNat _)
    have hpower := isNegative_powerOfTen _ (Array.getElem_mem (i := e) (by
      change e < 23
      omega))
    cases s
    · exact isNegative_mul hm hpower
    · exact isNegative_div hm hpower
  · exact isNegative_ofModel (unsigned_ofScientific _ _)

theorem isNegative_nearest (d : Scaled) : isNegative (nearest d) = false := by
  unfold nearest
  dsimp only
  split
  · decide +kernel
  · split
    · decide +kernel
    · split <;> exact isNegative_ofScientific _ _ _

theorem isNegative_word? {cs : List Char} {x : Float} (h : word? cs = some x) :
    isNegative x = false := by
  unfold word? at h
  split at h
  · cases h
    decide +kernel
  · cases h
    decide +kernel
  · cases h
    decide +kernel
  · cases h

theorem isNegative_unsigned? {cs : List Char} {x : Float} (h : unsigned? cs = some x) :
    isNegative x = false := by
  rcases Option.or_eq_some_iff.mp h with hword | ⟨-, hnumeral⟩
  · exact isNegative_word? hword
  · obtain ⟨d, -, rfl⟩ := Option.map_eq_some_iff.mp hnumeral
    exact isNegative_nearest d

theorem isNegative_read? {cs : List Char} {x : Float} (h : read? cs = some x)
    (hminus : cs.head? ≠ some '-') : isNegative x = false := by
  unfold read? at h
  split at h
  · exact absurd rfl hminus
  · exact isNegative_unsigned? h
  · exact isNegative_unsigned? h

end ConstraintNet.Decimal
