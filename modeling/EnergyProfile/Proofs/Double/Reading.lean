import EnergyProfile.Double
import Mathlib

/-!
# Doubles and their fields

The arithmetic of doubles is that of a software model, which takes words apart into sign,
significand and exponent and puts results together again. Both ways agree with the reading of a
double, so what the model computes can be said of readings alone.
-/

namespace EnergyProfile

set_option autoImplicit false

open Float.Model

namespace Double

/-- The greatest exponent of a finite double. -/
def maxExponent : Int := 971

/-- A significand and an exponent as a word holds them: fifty-three bits, all in use except next to
zero. -/
structure Fits (significand : Nat) (exponent : Int) : Prop where
  significand_lt : significand < 2 ^ 53
  minExponent_le : minExponent ≤ exponent
  exponent_le : exponent ≤ maxExponent
  normal : 2 ^ 52 ≤ significand ∨ exponent = minExponent

/-- The reading of a word whose fields are known. -/
def ofFields (negative : Bool) (field fraction : Nat) : Double :=
  if field = 2047 then
    if fraction = 0 then infinite negative else nan
  else if field = 0 then
    finite negative fraction minExponent
  else
    finite negative (fraction + 2 ^ 52) (field - 1075)

theorem ofBits_eq (bits : Nat) :
    ofBits bits = ofFields (bits / 2 ^ 63 % 2 == 1) (bits / 2 ^ 52 % 2 ^ 11) (bits % 2 ^ 52) := rfl

theorem Fits.ofFields {negative sign : Bool} {field fraction m : Nat} {e : Int}
    (hfield : field < 2 ^ 11) (hfraction : fraction < 2 ^ 52)
    (h : ofFields negative field fraction = finite sign m e) : Fits m e := by
  unfold Double.ofFields at h
  split at h
  · split at h <;> cases h
  · split at h
    · injection h with _ hm he
      subst hm he
      exact ⟨by omega, by decide, by decide, .inr rfl⟩
    · injection h with _ hm he
      subst hm he
      exact ⟨by omega, by unfold minExponent; omega, by unfold maxExponent; omega, .inl (by omega)⟩

theorem Fits.ofFloat {x : Float} {negative : Bool} {m : Nat} {e : Int}
    (h : ofFloat x = finite negative m e) : Fits m e := by
  rw [Double.ofFloat, ofBits_eq] at h
  exact Fits.ofFields (Nat.mod_lt _ (by decide)) (Nat.mod_lt _ (by decide)) h

/-- What an unpacked number stands for. -/
def ofUnpacked : UnpackedFloat → Double
  | .notANumber => nan
  | .infinity sign => infinite (sign == .negative)
  | .zero sign => finite (sign == .negative) 0 minExponent
  | .finite sign significand exponent _ => finite (sign == .negative) significand exponent

section Word

open UnpackedFloat

theorem ofBitVec_beq_negative (b : BitVec 1) :
    (Sign.ofBitVec b == .negative) = (b.toNat == 1) := by
  revert b
  decide

theorem toBitVec_toNat (s : Sign) : (s.toBitVec.toNat == 1) = (s == .negative) := by
  cases s <;> rfl

theorem ofUnpacked_unpack (b : BitVec 64) :
    ofUnpacked (unpack Format.binary64 b) =
      ofFields ((@unpackSign Format.binary64 b).toNat == 1)
        (@unpackExponent Format.binary64 b).toNat
        (@unpackMantissa Format.binary64 b).toNat := by
  have hfield : @unpackExponent Format.binary64 b = -1#11 ↔
      (@unpackExponent Format.binary64 b).toNat = 2047 := by
    rw [← BitVec.toNat_inj]
    rfl
  have hzero : @unpackExponent Format.binary64 b = 0#11 ↔
      (@unpackExponent Format.binary64 b).toNat = 0 := by
    rw [← BitVec.toNat_inj]
    rfl
  have hfraction : @unpackMantissa Format.binary64 b = 0#52 ↔
      (@unpackMantissa Format.binary64 b).toNat = 0 := by
    rw [← BitVec.toNat_inj]
    rfl
  unfold UnpackedFloat.unpack ofFields
  simp only [hfield, hzero]
  split
  · split
    · rename_i h
      simp only [hfraction.mp h, ofUnpacked, if_pos, ofBitVec_beq_negative]
    · rename_i h
      rw [if_neg (mt hfraction.mpr h)]
      rfl
  · split
    · split
      · rename_i h
        simp only [hfraction.mp h, ofUnpacked, ofBitVec_beq_negative]
      · rename_i h _
        simp only [ofUnpacked, ofBitVec_beq_negative, h]
        rfl
    · have hbias : ((Format.binary64.exponentBias : Int) + 52) = 1075 := by rfl
      simp only [ofUnpacked, ofBitVec_beq_negative]
      have hhidden : (1#1 ++ @unpackMantissa Format.binary64 b).toNat =
          (@unpackMantissa Format.binary64 b).toNat + 2 ^ 52 := by
        rw [BitVec.toNat_append, ← Nat.shiftLeft_add_eq_or_of_lt (BitVec.isLt _), Nat.add_comm]
        rfl
      rw [hhidden]
      rfl

theorem ofFloat_eq (x : Float) : ofFloat x = ofUnpacked x.toModel.unpack := by
  rw [Float.Model.unpack, ofUnpacked_unpack, ofFloat, ofBits_eq]
  simp [unpackSign, unpackExponent, unpackMantissa, Nat.shiftRight_eq_div_pow, Float.toBits]

theorem ofFloat_packComponents (s : Sign) (e : BitVec 11) (m : BitVec 52) :
    ofUnpacked (unpack Format.binary64 (packComponents Format.binary64 s e m)) =
      ofFields (s == .negative) e.toNat m.toNat := by
  rw [ofUnpacked_unpack, unpackSign_packComponents, unpackExponent_packComponents,
    unpackMantissa_packComponents, toBitVec_toNat]

theorem ofFloat_ofModel (u : UnpackedFloat) :
    ofFloat (.ofModel (.pack u)) =
      ofUnpacked (unpack Format.binary64 (pack Format.binary64 u)) := by
  rw [ofFloat_eq]
  rfl

theorem ofFloat_nan : ofFloat (.ofModel (.pack .notANumber)) = nan := by
  rw [ofFloat_ofModel]
  exact ofFloat_packComponents .positive _ _

theorem ofFloat_infinity (s : Sign) :
    ofFloat (.ofModel (.pack (.infinity s))) = infinite (s == .negative) := by
  rw [ofFloat_ofModel]
  exact ofFloat_packComponents s _ _

theorem ofFloat_zero (s : Sign) :
    ofFloat (.ofModel (.pack (.zero s))) = finite (s == .negative) 0 minExponent := by
  rw [ofFloat_ofModel]
  exact ofFloat_packComponents s _ _

theorem ofFloat_finite (s : Sign) {m : Nat} {e : Int} (hm : 0 < m) (h : Fits m e) :
    ofFloat (.ofModel (.pack (.finite s m e hm))) = finite (s == .negative) m e := by
  obtain ⟨hlt, hmin, hmax, hnormal⟩ := h
  have hbias : (Format.binary64.exponentBias : Int) = 1023 := by rfl
  have hbits : Format.binary64.mantissaBits = 53 := by rfl
  unfold minExponent at hmin hnormal
  unfold maxExponent at hmax
  have hlog : m.log2 < 53 := (Nat.log2_lt hm.ne').mpr hlt
  rw [ofFloat_ofModel]
  simp only [UnpackedFloat.pack, hbias, hbits]
  rw [if_neg (by omega)]
  split
  · rename_i hfull
    have hge : 2 ^ 52 ≤ m := (Nat.le_log2 hm.ne').mp (by omega)
    rw [ofFloat_packComponents, BitVec.toNat_ofNat, BitVec.toNat_ofNat, ofFields,
      if_neg (by omega), if_neg (by omega)]
    congr 1 <;> omega
  · rename_i hpart
    have hsmall : m < 2 ^ 52 := (Nat.log2_lt hm.ne').mp (by omega)
    rw [ofFloat_packComponents, BitVec.toNat_ofNat, BitVec.toNat_ofNat, ofFields,
      if_neg (by decide), if_pos (by decide), Nat.mod_eq_of_lt hsmall]
    rw [hnormal.resolve_left (by omega)]
    rfl

theorem ofFloat_overflow (s : Sign) {m : Nat} {e : Int} (hm : 0 < m) (h : maxExponent < e) :
    ofFloat (.ofModel (.pack (.finite s m e hm))) = infinite (s == .negative) := by
  have hbias : (Format.binary64.exponentBias : Int) = 1023 := by rfl
  unfold maxExponent at h
  rw [ofFloat_ofModel]
  simp only [UnpackedFloat.pack, hbias]
  rw [if_pos (by omega)]
  exact ofFloat_packComponents s _ _

end Word

end Double

end EnergyProfile
