import EnergyProfile.Proofs.Double.Rounding
import EnergyProfile.Proofs.Double.Special

/-!
# Arithmetic of finite doubles

Products and quotients are the exact ones, rounded. Whole numbers of up to fifty-three bits are
exact, finite doubles compare as the numbers they stand for, and the whole part is the exact one.
-/

namespace EnergyProfile

set_option autoImplicit false

open Float.Model UnpackedFloat

namespace Double

variable {x y : Float} {n n' : Bool} {m m' : Nat} {e e' : ℤ}

theorem unpack_of_finite (h : ofFloat x = finite n m e) :
    (∃ s, x.toModel.unpack = .zero s ∧ (s == .negative) = n ∧ m = 0) ∨
      ∃ s hm, x.toModel.unpack = .finite s m e hm ∧ (s == .negative) = n := by
  rw [ofFloat_eq] at h
  cases hu : x.toModel.unpack with
  | notANumber => simp [hu, ofUnpacked] at h
  | infinity s => simp [hu, ofUnpacked] at h
  | zero s =>
    simp only [hu, ofUnpacked, finite.injEq] at h
    exact .inl ⟨s, rfl, h.1, h.2.1.symm⟩
  | finite s k q hk =>
    simp only [hu, ofUnpacked, finite.injEq] at h
    obtain ⟨hs, rfl, rfl⟩ := h
    exact .inr ⟨s, hk, rfl, hs⟩

theorem mul_beq_negative (s t : Sign) :
    (s * t == .negative) = ((s == .negative) != (t == .negative)) := by
  cases s <;> cases t <;> rfl

theorem div_beq_negative (s t : Sign) :
    (s / t == .negative) = ((s == .negative) != (t == .negative)) := by
  cases s <;> cases t <;> rfl

theorem exponent_le_of_pow_le {z : ℝ} {k : ℤ} (h : 2 ^ (k + 52) ≤ z) :
    k ≤ unitExponent z := by
  have := (zpow_lt_zpow_iff_right₀ (one_lt_two (α := ℝ))).mp (h.trans_lt (lt_unit z))
  omega

theorem add_exponent_le (hx : Fits m e) (hy : Fits m' e') (hm : 0 < m) (hm' : 0 < m') :
    e + e' ≤ unitExponent (m * 2 ^ e * (m' * 2 ^ e')) := by
  have hprod : (m : ℝ) * 2 ^ e * (m' * 2 ^ e') = (m * m' : ℕ) * 2 ^ (e + e') := by
    rw [zpow_add₀ two_ne_zero]
    push_cast
    ring
  have hpos : (0 : ℝ) < (m * m' : ℕ) := by exact_mod_cast Nat.mul_pos hm hm'
  rw [hprod]
  by_cases hlarge : 2 ^ 52 ≤ m * m'
  · have hlarge : (2 : ℝ) ^ (52 : ℤ) ≤ (m * m' : ℕ) := by exact_mod_cast hlarge
    refine exponent_le_of_pow_le ?_
    rw [add_comm, zpow_add₀ two_ne_zero]
    gcongr
  · have hleft : m ≤ m * m' := Nat.le_mul_of_pos_right m hm'
    have hright : m' ≤ m * m' := Nat.le_mul_of_pos_left m' hm
    have hmin := minExponent_le_unitExponent ((m * m' : ℕ) * 2 ^ (e + e'))
    have hex := hx.normal.resolve_left (by omega)
    have hey := hy.normal.resolve_left (by omega)
    have hneg : minExponent ≤ 0 := by decide
    omega

/-- The product of two finite doubles is the exact one, rounded. -/
theorem holds_mul (hx : ofFloat x = finite n m e) (hy : ofFloat y = finite n' m' e') :
    Holds (n != n') (rounded (m * 2 ^ e * (m' * 2 ^ e'))) (ofFloat (x * y)) := by
  have hzero (s : Sign) :
      Holds (s == .negative) (rounded 0) (ofFloat (.ofModel (.pack (.zero s)))) := by
    rw [ofFloat_zero, rounded_zero]
    exact ⟨rfl, by simp, by positivity⟩
  rw [mul_eq]
  rcases unpack_of_finite hx with ⟨s, hu, rfl, rfl⟩ | ⟨s, hm, hu, rfl⟩ <;>
    rcases unpack_of_finite hy with ⟨t, hv, rfl, rfl⟩ | ⟨t, hm', hv, rfl⟩ <;>
    rw [hu, hv, ← mul_beq_negative]
  · simpa [UnpackedFloat.mul] using hzero (s * t)
  · simpa [UnpackedFloat.mul] using hzero (s * t)
  · simpa [UnpackedFloat.mul] using hzero (s * t)
  · have hxpos : (0 : ℝ) < m := by exact_mod_cast hm
    have hypos : (0 : ℝ) < m' := by exact_mod_cast hm'
    refine holds_roundWithAccuracy _ (by positivity) ?_
      (add_exponent_le (Fits.ofFloat hx) (Fits.ofFloat hy) hm hm')
    have hexact : (m : ℝ) * 2 ^ e * (m' * 2 ^ e') / 2 ^ (e + e') = (m * m' : ℕ) := by
      rw [zpow_add₀ two_ne_zero]
      push_cast
      field_simp
    rw [hexact]
    exact Describes.exact _

theorem infinite_mul (hx : ofFloat x = infinite n) (hy : ofFloat y = finite n' m e) (hm : 0 < m) :
    ofFloat (x * y) = infinite (n != n') := by
  obtain ⟨s, hs, rfl⟩ := unpack_of_infinite hx
  rcases unpack_of_finite hy with ⟨t, hv, rfl, rfl⟩ | ⟨t, _, hv, rfl⟩
  · exact absurd hm (lt_irrefl 0)
  · rw [mul_eq, hs, hv, ← mul_beq_negative]
    exact ofFloat_infinity _

theorem bits_ofFraction (q num den : Nat) (hden : 0 < den) :
    ((ExtendedMantissa.ofMantissaAndAccuracy q (accuracyOfFraction num den)).roundBit ↔
      den ≤ 2 * num) ∧
    ((ExtendedMantissa.ofMantissaAndAccuracy q (accuracyOfFraction num den)).stickyBit ↔
      num ≠ 0 ∧ 2 * num ≠ den) := by
  unfold accuracyOfFraction
  split
  · rename_i hnum
    simp [ExtendedMantissa.ofMantissaAndAccuracy, hnum]
    omega
  · cases ho : compare (2 * num) den with
    | lt =>
      have := Nat.compare_eq_lt.mp ho
      simp [ExtendedMantissa.ofMantissaAndAccuracy]
      omega
    | eq =>
      have := Nat.compare_eq_eq.mp ho
      simp [ExtendedMantissa.ofMantissaAndAccuracy]
      omega
    | gt =>
      have := Nat.compare_eq_gt.mp ho
      simp [ExtendedMantissa.ofMantissaAndAccuracy]
      omega

theorem describes_quotient (a b : Nat) (hb : 0 < b) :
    Describes (ExtendedMantissa.ofMantissaAndAccuracy (a / b) (accuracyOfFraction (a % b) b))
      (a / b : ℝ) := by
  have hbpos : (0 : ℝ) < b := by exact_mod_cast hb
  have hfloor : ⌊(a / b : ℝ)⌋ = (a / b : ℕ) := by
    rw [Int.floor_div_natCast, Int.floor_natCast]
    rfl
  have hfract : Int.fract (a / b : ℝ) = (a % b : ℕ) / b := by
    have hdiv : (b : ℝ) * (a / b : ℕ) + (a % b : ℕ) = a := by exact_mod_cast Nat.div_add_mod a b
    rw [Int.fract, hfloor, Int.cast_natCast, eq_div_iff hbpos.ne', sub_mul,
      div_mul_cancel₀ _ hbpos.ne']
    linarith
  obtain ⟨hround, hsticky⟩ := bits_ofFraction (a / b) (a % b) b hb
  refine ⟨?_, ?_, ?_⟩
  · rw [hfloor, mantissa_ofMantissaAndAccuracy]
  · rw [hround, hfract, le_div_iff₀ hbpos, ← Nat.cast_le (α := ℝ)]
    push_cast
    constructor <;> intro <;> linarith
  · rw [hsticky, hfract, Ne, Ne, Ne, Ne, div_eq_zero_iff, or_iff_left hbpos.ne', Nat.cast_eq_zero,
      div_eq_div_iff hbpos.ne' two_ne_zero, ← Nat.cast_inj (R := ℝ) (m := 2 * _)]
    push_cast
    rw [mul_comm, one_mul]

theorem divCore_exponent_le (hm : 0 < m) (hm' : 0 < m') :
    (divCore Format.binary64 m e m' e').2.1 ≤ unitExponent (m * 2 ^ e / (m' * 2 ^ e')) := by
  have hlow : (2 : ℝ) ^ (m.log2 : ℤ) ≤ m := by exact_mod_cast Nat.log2_self_le hm.ne'
  have hhigh : (m' : ℝ) ≤ 2 ^ ((m'.log2 : ℤ) + 1) := by
    exact_mod_cast (Nat.lt_log2_self (n := m')).le
  have hxpos : (0 : ℝ) < m := by exact_mod_cast hm
  have hypos : (0 : ℝ) < m' := by exact_mod_cast hm'
  have hmin := minExponent_le_unitExponent (m * 2 ^ e / (m' * 2 ^ e'))
  have hsize : (m.log2 : ℤ) + e - (m'.log2 + e' + 1) - 52 ≤
      unitExponent (m * 2 ^ e / (m' * 2 ^ e')) := by
    refine exponent_le_of_pow_le ?_
    rw [le_div_iff₀ (by positivity)]
    calc (2 : ℝ) ^ ((m.log2 : ℤ) + e - (m'.log2 + e' + 1) - 52 + 52) * (m' * 2 ^ e')
        ≤ 2 ^ ((m.log2 : ℤ) + e - (m'.log2 + e' + 1) - 52 + 52) *
            (2 ^ ((m'.log2 : ℤ) + 1) * 2 ^ e') := by gcongr
      _ = 2 ^ (m.log2 : ℤ) * 2 ^ e := by
          rw [← zpow_add₀ two_ne_zero, ← zpow_add₀ two_ne_zero, ← zpow_add₀ two_ne_zero]
          congr 1
          ring
      _ ≤ m * 2 ^ e := by gcongr
  refine (min_le_right _ _).trans ?_
  simp only [Format.targetExponent, totalExponent, Format.mantissaBits, Format.minExponent]
  unfold minExponent at hmin
  norm_num
  omega

/-- The quotient of finite doubles is the exact one, rounded, unless the divisor is zero. -/
theorem holds_div (hx : ofFloat x = finite n m e) (hy : ofFloat y = finite n' m' e')
    (hm' : 0 < m') :
    Holds (n != n') (rounded (m * 2 ^ e / (m' * 2 ^ e'))) (ofFloat (x / y)) := by
  rw [div_eq]
  rcases unpack_of_finite hy with ⟨t, hv, rfl, rfl⟩ | ⟨t, _, hv, rfl⟩
  · exact absurd hm' (lt_irrefl 0)
  rcases unpack_of_finite hx with ⟨s, hu, rfl, rfl⟩ | ⟨s, hm, hu, rfl⟩ <;>
    rw [hu, hv, ← div_beq_negative]
  · have hzero : rounded ((0 : ℕ) * 2 ^ e / (m' * 2 ^ e')) = 0 := by simp
    rw [hzero]
    simp only [UnpackedFloat.div]
    rw [ofFloat_zero]
    exact ⟨rfl, by simp, by positivity⟩
  · have hxpos : (0 : ℝ) < m := by exact_mod_cast hm
    have hypos : (0 : ℝ) < m' := by exact_mod_cast hm'
    change Holds _ _ (ofFloat (.ofModel (.pack (roundWithAccuracy Format.binary64 (s / t)
      (divCore Format.binary64 m e m' e').1 (divCore Format.binary64 m e m' e').2.1
      (divCore Format.binary64 m e m' e').2.2))))
    refine holds_roundWithAccuracy _ (by positivity) ?_ (divCore_exponent_le hm hm')
    have hle : (divCore Format.binary64 m e m' e').2.1 ≤ e - e' := min_le_left _ _
    simp only [divCore] at hle ⊢
    set t := min (e - e')
      (Format.binary64.targetExponent (totalExponent m e - totalExponent m' e'))
    have hshift : ((e - e' - t).toNat : ℤ) = e - e' - t := Int.toNat_of_nonneg (by omega)
    have hexact : (m : ℝ) * 2 ^ e / (m' * 2 ^ e') / 2 ^ t =
        (m <<< (e - e' - t).toNat : ℕ) / m' := by
      rw [Nat.shiftLeft_eq]
      push_cast
      rw [← zpow_natCast, hshift, zpow_sub₀ two_ne_zero, zpow_sub₀ two_ne_zero]
      field_simp
    rw [hexact]
    exact describes_quotient _ _ hm'

/-- The model rounds a whole number of units. -/
theorem holds_round (s : Sign) (hm : 0 < m) (e : ℤ) :
    Holds (s == .negative) (rounded (m * 2 ^ e))
      (ofFloat (.ofModel (.pack (UnpackedFloat.round Format.binary64 s m e)))) := by
  have hpos : (0 : ℝ) < m := by exact_mod_cast hm
  have hlog : (2 : ℝ) ^ (m.log2 : ℤ) ≤ m := by exact_mod_cast Nat.log2_self_le hm.ne'
  unfold UnpackedFloat.round
  simp only [decreaseExponent, targetExponent_eq]
  set t := max ((m.log2 : ℤ) + e - 52) minExponent
  refine holds_roundWithAccuracy s (by positivity) ?_ ?_
  · have hexact : (m : ℝ) * 2 ^ e / 2 ^ (e - ((e - t).toNat : ℤ)) =
        (m <<< (e - t).toNat : ℕ) := by
      rw [Nat.shiftLeft_eq, zpow_sub₀ two_ne_zero, zpow_natCast]
      push_cast
      field_simp
    rw [hexact]
    exact Describes.exact _
  · have hunit : t ≤ unitExponent (m * 2 ^ e) := by
      refine max_le (exponent_le_of_pow_le ?_) (minExponent_le_unitExponent _)
      rw [Int.sub_add_cancel, zpow_add₀ two_ne_zero]
      gcongr
    omega

theorem ofFloat_zero_eq : ofFloat (Scalar.ofNat 0) = finite false 0 minExponent := by
  decide +kernel

theorem rounded_natCast {k : Nat} (hk : k < 2 ^ 53) : rounded k = k := by
  rcases Nat.eq_zero_or_pos k with rfl | hpos
  · simp
  have hkpos : (0 : ℝ) < k := by exact_mod_cast hpos
  have hunit : unitExponent k ≤ 0 := by
    rcases unit_le hkpos with h | h
    · have hlt : (k : ℝ) < 2 ^ (53 : ℤ) := by exact_mod_cast hk
      have := (zpow_lt_zpow_iff_right₀ (one_lt_two (α := ℝ))).mp (h.trans_lt hlt)
      omega
    · rw [h]
      unfold minExponent
      omega
  apply rounded_of_multiple (k := k * 2 ^ (-unitExponent k).toNat)
  have hcancel : (2 : ℝ) ^ (-unitExponent (k : ℝ)).toNat * 2 ^ unitExponent (k : ℝ) = 1 := by
    rw [← zpow_natCast, Int.toNat_of_nonneg (by omega), ← zpow_add₀ two_ne_zero]
    simp
  push_cast
  rw [mul_assoc, hcancel, mul_one]

theorem holds_toFloat {k : Nat} (hk : k < 2 ^ 53) :
    Holds false k (ofFloat k.toUInt64.toFloat) := by
  have hword : k.toUInt64.toNat = k := by
    rw [Nat.toUInt64_eq, UInt64.toNat_ofNat']
    omega
  change Holds false k (ofFloat (.ofModel (.pack (UnpackedFloat.normalize Format.binary64
    k.toUInt64.toNat 0 .positive))))
  rw [hword]
  rcases Nat.eq_zero_or_pos k with rfl | hpos
  · change Holds _ _ (ofFloat (.ofModel (.pack (.zero .positive))))
    rw [ofFloat_zero]
    exact ⟨rfl, by simp, by norm_num⟩
  · have hround := holds_round .positive hpos 0
    rw [zpow_zero, mul_one, rounded_natCast hk] at hround
    unfold UnpackedFloat.normalize
    rw [Int.compare_eq_gt.mpr (by omega), Int.toNat_natCast]
    exact hround

theorem Holds.exists_finite {y : ℝ} {d : Double} (h : Holds n y d) (hy : y < 2 ^ 1024) :
    ∃ m e, d = finite n m e ∧ m * 2 ^ e = y := by
  cases d with
  | nan => exact h.elim
  | infinite sign => exact absurd hy h.2.not_gt
  | finite sign m e =>
    obtain ⟨rfl, hvalue, -⟩ := h
    exact ⟨m, e, rfl, hvalue⟩

theorem natCast_lt_huge {k : Nat} (hk : k < 2 ^ 53) : (k : ℝ) < 2 ^ 1024 := by
  have hk : (k : ℝ) < 2 ^ 53 := by exact_mod_cast hk
  exact hk.trans (pow_lt_pow_right₀ one_lt_two (by decide))

theorem ofFloat_ofNat {k : Nat} (hk : k < 2 ^ 53) :
    ∃ m e, ofFloat (Float.ofNat k) = finite false m e ∧ m * 2 ^ e = (k : ℝ) := by
  have hone : ofFloat (Float.ofBits 0x3FF0000000000000) = finite false (2 ^ 52) (-52) := by
    decide +kernel
  have hmul : Float.ofNat k = k.toUInt64.toFloat * Float.ofBits 0x3FF0000000000000 := by
    change Float.ofScientific k false 0 = _
    rw [Float.ofScientific, dif_pos ⟨hk, by decide⟩]
    rfl
  obtain ⟨m, e, hfloat, hvalue⟩ := (holds_toFloat hk).exists_finite (natCast_lt_huge hk)
  have hproduct := holds_mul hfloat hone
  have hscale : ((2 ^ 52 : ℕ) : ℝ) * 2 ^ (-52 : ℤ) = 1 := by norm_num
  rw [hvalue, hscale, mul_one, rounded_natCast hk] at hproduct
  rw [hmul]
  exact hproduct.exists_finite (natCast_lt_huge hk)

theorem lt_of_exponent_lt (hx : m < 2 ^ 53) (hy : Fits m' e') (hmin : minExponent ≤ e)
    (h : e < e') : (m : ℝ) * 2 ^ e < m' * 2 ^ e' := by
  have hge : 2 ^ 52 ≤ m' := hy.normal.resolve_right (by omega)
  have hlt : (m : ℝ) < 2 ^ (53 : ℤ) := by exact_mod_cast hx
  have hge : (2 : ℝ) ^ (52 : ℤ) ≤ m' := by exact_mod_cast hge
  calc (m : ℝ) * 2 ^ e < 2 ^ (53 : ℤ) * 2 ^ e := by gcongr
    _ = 2 ^ (52 : ℤ) * 2 ^ (e + 1) := by
        rw [← zpow_add₀ two_ne_zero, ← zpow_add₀ two_ne_zero]
        congr 1
        ring
    _ ≤ 2 ^ (52 : ℤ) * 2 ^ e' := by
        gcongr
        · exact one_le_two
        · exact h
    _ ≤ m' * 2 ^ e' := by gcongr

theorem compare_eq_lt_iff (hx : Fits m e) (hy : Fits m' e') :
    (compare e e').then (compare m m') = .lt ↔ (m : ℝ) * 2 ^ e < m' * 2 ^ e' := by
  rcases lt_trichotomy e e' with h | rfl | h
  · rw [Int.compare_eq_lt.mpr h]
    simpa using lt_of_exponent_lt hx.significand_lt hy hx.minExponent_le h
  · rw [Int.compare_eq_eq.mpr rfl]
    have hpos : (0 : ℝ) < 2 ^ e := by positivity
    rw [mul_lt_mul_iff_left₀ hpos, Nat.cast_lt, ← Nat.compare_eq_lt]
    rfl
  · rw [Int.compare_eq_gt.mpr h]
    simpa using (lt_of_exponent_lt hy.significand_lt hx hy.minExponent_le h).le

theorem swap_compare_eq_lt_iff (hx : Fits m e) (hy : Fits m' e') :
    ((compare e e').then (compare m m')).swap = .lt ↔ (m' : ℝ) * 2 ^ e' < m * 2 ^ e := by
  rw [Ordering.swap_then, Int.compare_swap, Nat.compare_swap]
  exact compare_eq_lt_iff hy hx

theorem toReal_finite (n : Bool) (m : Nat) (e : ℤ) :
    (finite n m e).toReal = if n then -((m : ℝ) * 2 ^ e) else m * 2 ^ e := by
  cases n <;> simp [toReal]

theorem toReal_zero (n : Bool) (e : ℤ) : (finite n 0 e).toReal = 0 := by
  simp [toReal_finite]

theorem toReal_negative (m : Nat) (e : ℤ) :
    (finite (Sign.negative == .negative) m e).toReal = -((m : ℝ) * 2 ^ e) :=
  toReal_finite true m e

theorem toReal_positive (m : Nat) (e : ℤ) :
    (finite (Sign.positive == .negative) m e).toReal = (m : ℝ) * 2 ^ e :=
  toReal_finite false m e

theorem lt_iff_toReal (hx : x.isFinite) (hy : y.isFinite) :
    x < y ↔ (ofFloat x).toReal < (ofFloat y).toReal := by
  obtain ⟨n, m, e, hx⟩ := isFinite_iff.mp hx
  obtain ⟨n', m', e', hy⟩ := isFinite_iff.mp hy
  have hlt := compare_eq_lt_iff (Fits.ofFloat hx) (Fits.ofFloat hy)
  have hgt := swap_compare_eq_lt_iff (Fits.ofFloat hx) (Fits.ofFloat hy)
  have hpos {k : ℕ} (q : ℤ) (hk : 0 < k) : (0 : ℝ) < k * 2 ^ q := by positivity
  rw [lt_iff, hx, hy]
  rcases unpack_of_finite hx with ⟨s, hu, rfl, rfl⟩ | ⟨s, hm, hu, rfl⟩ <;>
    rcases unpack_of_finite hy with ⟨t, hv, rfl, rfl⟩ | ⟨t, hm', hv, rfl⟩ <;>
    rw [hu, hv]
  · simp [UnpackedFloat.compare, toReal_zero]
  · have := hpos e' hm'
    rw [toReal_zero]
    cases t with
    | negative =>
      rw [toReal_negative]
      simp [UnpackedFloat.compare]
      linarith
    | positive =>
      rw [toReal_positive]
      simp [UnpackedFloat.compare]
      linarith
  · have := hpos e hm
    rw [toReal_zero]
    cases s with
    | negative =>
      rw [toReal_negative]
      simp [UnpackedFloat.compare]
      linarith
    | positive =>
      rw [toReal_positive]
      simp [UnpackedFloat.compare]
      linarith
  · have := hpos e hm
    have := hpos e' hm'
    cases s with
    | negative =>
      rw [toReal_negative]
      cases t with
      | negative =>
        rw [toReal_negative]
        simp [UnpackedFloat.compare, hgt]
      | positive =>
        rw [toReal_positive]
        simp [UnpackedFloat.compare]
        linarith
    | positive =>
      rw [toReal_positive]
      cases t with
      | negative =>
        rw [toReal_negative]
        simp [UnpackedFloat.compare]
        linarith
      | positive =>
        rw [toReal_positive]
        simp [UnpackedFloat.compare, hlt]

theorem floor?_finite (n : Bool) (m : Nat) (e : ℤ) :
    (finite n m e).floor? = some ⌊(finite n m e).toReal⌋ := by
  set signed : ℤ := if n then -(m : ℤ) else m with hsigned
  have hvalue : (finite n m e).toReal = signed * 2 ^ e := by
    rw [hsigned, toReal]
    cases n <;> simp
  rw [floor?, hvalue]
  split
  · rename_i he
    have hwhole : (signed : ℝ) * 2 ^ e = (signed * twoTo e.toNat : ℤ) := by
      change _ = ((signed * (2 ^ e.toNat : ℕ) : ℤ) : ℝ)
      push_cast
      rw [← zpow_natCast, Int.toNat_of_nonneg he]
    rw [hwhole, Int.floor_intCast]
  · rename_i he
    have hpart : (signed : ℝ) * 2 ^ e = signed / (twoTo (-e).toNat : ℕ) := by
      change _ = (signed : ℝ) / (2 ^ (-e).toNat : ℕ)
      push_cast
      rw [← zpow_natCast, Int.toNat_of_nonneg (by omega), zpow_neg, div_inv_eq_mul]
    rw [hpart, Int.floor_div_natCast, Int.floor_intCast]

end Double

end EnergyProfile
