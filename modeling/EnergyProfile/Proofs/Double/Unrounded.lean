import EnergyProfile.Proofs.Double.Magnitude

/-!
# Results that need no rounding

A result that is a double itself is not rounded. A double is known by its reading, and finite doubles
are equal if they stand for one number, so the two zeros are equal and no other doubles are.
-/

namespace EnergyProfile

set_option autoImplicit false

open Float.Model UnpackedFloat

namespace Double

variable {x y : Float}

theorem ofFields_inj {n n' : Bool} {field field' fraction fraction' : Nat}
    (hfraction : fraction < 2 ^ 52) (hfraction' : fraction' < 2 ^ 52)
    (hsame : ofFields n field fraction = ofFields n' field' fraction')
    (hnan : ofFields n field fraction ≠ nan) : n = n' ∧ field = field' ∧ fraction = fraction' := by
  grind [ofFields]

theorem ofBits_inj {a b : Nat} (ha : a < 2 ^ 64) (hb : b < 2 ^ 64) (hsame : ofBits a = ofBits b)
    (hnan : ofBits a ≠ nan) : a = b := by
  rw [ofBits_eq] at hnan
  rw [ofBits_eq, ofBits_eq] at hsame
  obtain ⟨hsign, hfield, hfraction⟩ :=
    ofFields_inj (Nat.mod_lt _ (by decide)) (Nat.mod_lt _ (by decide)) hsame hnan
  have hbit : a / 2 ^ 63 % 2 = 1 ↔ b / 2 ^ 63 % 2 = 1 := by
    rw [← beq_iff_eq, hsign, beq_iff_eq]
  omega

theorem ofFloat_inj (h : ofFloat x = ofFloat y) : x = y := by
  by_cases hnan : ofFloat x = nan
  · exact eq_of_nan hnan (h ▸ hnan)
  · have hbits := ofBits_inj x.toBits.toNat_lt y.toBits.toNat_lt h hnan
    exact Float.toBits_inj.mp (UInt64.toNat_inj.mp hbits)

theorem compare_ne_eq (hx : x.isFinite = false) (hy : y.isFinite) :
    x.toModel.unpack.compare y.toModel.unpack ≠ some .eq := by
  rw [Float.isFinite, Float.Model.isFinite] at hx hy
  cases hu : x.toModel.unpack with
  | notANumber => simp [UnpackedFloat.compare]
  | infinity s =>
    cases s <;> cases hv : y.toModel.unpack <;> simp_all [UnpackedFloat.compare, UnpackedFloat.isFinite]
  | zero s => simp [hu, UnpackedFloat.isFinite] at hx
  | finite s m e hm => simp [hu, UnpackedFloat.isFinite] at hx

theorem beq_iff (hy : y.isFinite) :
    (x == y) = true ↔ x.isFinite ∧ (ofFloat x).toReal = (ofFloat y).toReal := by
  have hcompare : (x == y) = (x.toModel.unpack.compare y.toModel.unpack == some .eq) := rfl
  rw [hcompare, beq_iff_eq]
  by_cases hx : x.isFinite
  · have hlt := lt_iff_toReal hx hy
    have hgt := lt_iff_toReal hy hx
    rw [lt_iff] at hlt hgt
    rw [compare_swap x.toModel.unpack] at hgt
    have hsame : (ofFloat x).toReal = (ofFloat y).toReal ↔
        ¬ (ofFloat x).toReal < (ofFloat y).toReal ∧ ¬ (ofFloat y).toReal < (ofFloat x).toReal := by
      rw [not_lt, not_lt, and_comm, ← le_antisymm_iff]
    rw [and_iff_right hx, hsame, ← hlt, ← hgt]
    cases ho : x.toModel.unpack.compare y.toModel.unpack with
    | none => exact absurd ho (compare_ne_none hx hy)
    | some o => cases o <;> simp
  · have hx := eq_false_of_ne_true hx
    exact iff_of_false (compare_ne_eq hx hy) (by simp [hx])

/-- A finite double that stands for this number. -/
def Exactly (x : Float) (a : ℝ) : Prop := x.isFinite ∧ (ofFloat x).toReal = a

theorem exactly_zero : Exactly (Scalar.ofNat 0) 0 :=
  ⟨isFinite_zero, by rw [ofFloat_zero_eq, toReal_zero]⟩

theorem RoundsTo.exactly {a : ℝ} (h : RoundsTo a (ofFloat y)) (hx : Exactly x a) : Exactly y a := by
  obtain ⟨hfinite, rfl⟩ := hx
  obtain ⟨n, m, e, hread⟩ := isFinite_iff.mp hfinite
  have hfits := Fits.ofFloat hread
  have hlimit : |(ofFloat x).toReal| < 2 ^ 1024 := by
    rw [hread, abs_toReal_finite]
    exact hfits.lt_huge
  have hrounded : rounded |(ofFloat x).toReal| = |(ofFloat x).toReal| := by
    rw [hread, abs_toReal_finite]
    exact rounded_of_fits hfits
  obtain ⟨hy, -⟩ := h.abs_le le_rfl hrounded hlimit
  exact ⟨hy, (h.toReal_eq hy).trans (nearest_toReal hfinite)⟩

variable {a : ℝ}

theorem exactly_add_zero (hx : Exactly x a) (hy : Exactly y 0) : Exactly (x + y) a := by
  have hsum := roundsTo_add hx.1 hy.1
  rw [hx.2, hy.2, add_zero] at hsum
  exact hsum.exactly hx

theorem exactly_zero_add (hx : Exactly x 0) (hy : Exactly y a) : Exactly (x + y) a := by
  have hsum := roundsTo_add hx.1 hy.1
  rw [hx.2, hy.2, zero_add] at hsum
  exact hsum.exactly hy

theorem exactly_sub_zero (hx : Exactly x a) (hy : Exactly y 0) : Exactly (x - y) a := by
  have hdifference := roundsTo_sub hx.1 hy.1
  rw [hx.2, hy.2, sub_zero] at hdifference
  exact hdifference.exactly hx

theorem exactly_sub_self (hx : Exactly x a) (hy : Exactly y a) : Exactly (x - y) 0 := by
  have hdifference := roundsTo_sub hx.1 hy.1
  rw [hx.2, hy.2, sub_self] at hdifference
  exact hdifference.exactly exactly_zero

theorem exactly_mul_zero (hx : x.isFinite) (hy : Exactly y 0) : Exactly (x * y) 0 := by
  have hproduct := roundsTo_mul hx hy.1
  rw [hy.2, mul_zero] at hproduct
  exact hproduct.exactly exactly_zero

theorem exactly_zero_div (hx : Exactly x 0) (hy : Positive (ofFloat y)) : Exactly (x / y) 0 := by
  have hquotient := roundsTo_div hx.1 hy
  rw [hx.2, zero_div] at hquotient
  exact hquotient.exactly exactly_zero

theorem exactly_div_one (hx : Exactly x a) (hy : Positive (ofFloat y))
    (hone : (ofFloat y).toReal = 1) : Exactly (x / y) a := by
  have hquotient := roundsTo_div hx.1 hy
  rw [hx.2, hone, div_one] at hquotient
  exact hquotient.exactly hx

theorem Exactly.eq_zero (hx : Exactly x 0) (hsign : Unsigned (ofFloat x)) :
    x = Scalar.ofNat 0 := by
  apply ofFloat_inj
  rw [ofFloat_zero_eq]
  obtain ⟨n, m, e, hread⟩ := isFinite_iff.mp hx.1
  rcases hsign with hinfinite | ⟨m, e, hunsigned⟩
  · rw [hread] at hinfinite
    cases hinfinite
  · have hvalue := hx.2
    rw [hunsigned, toReal_finite, if_neg Bool.false_ne_true] at hvalue
    have hm : m = 0 := by
      have hunit : (2 : ℝ) ^ e ≠ 0 := by positivity
      exact_mod_cast (mul_eq_zero.mp hvalue).resolve_right hunit
    subst hm
    rw [hunsigned, (Fits.ofFloat hunsigned).normal.resolve_left (by decide)]

end Double

end EnergyProfile
