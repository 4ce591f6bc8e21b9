import EnergyProfile.Proofs.Double.Arithmetic

/-!
# Order under rounding

Rounding keeps the order of numbers, so products of numbers that are not negative grow with their
factors. Comparisons are those of the real numbers wherever both sides are finite; a bound that is
finite may be lowered without losing anything above it, an infinite sample included.
-/

namespace EnergyProfile

set_option autoImplicit false

open Float.Model UnpackedFloat

theorem nearestEven_mono {x y : ℝ} (h : x ≤ y) : nearestEven x ≤ nearestEven y := by
  rcases (Int.floor_le_floor h).lt_or_eq with hlt | heq
  · have hx : x ≤ (⌊x⌋ + 1 : ℤ) := by
      push_cast
      exact (Int.lt_floor_add_one x).le
    have hy : ((⌊x⌋ + 1 : ℤ) : ℝ) ≤ y := Int.le_floor.mp hlt
    exact (nearestEven_le hx).trans (le_nearestEven hy)
  · have hfract : Int.fract x ≤ Int.fract y := by
      rw [Int.fract, Int.fract, heq]
      linarith
    have hmod := Int.emod_two_eq_zero_or_one ⌊y⌋
    unfold nearestEven
    rw [heq]
    split_ifs <;> first | omega | linarith

namespace Double

variable {x y z : Float} {n : Bool} {m : Nat} {e : ℤ}

theorem unitExponent_mono {a b : ℝ} (ha : 0 < a) (h : a ≤ b) : unitExponent a ≤ unitExponent b :=
  max_le_max_right _ (Int.sub_le_sub_right (Int.log_mono_right ha h) 52)

theorem rounded_nonneg {a : ℝ} (ha : 0 ≤ a) : 0 ≤ rounded a := by
  have hzero : ((0 : ℤ) : ℝ) ≤ a / 2 ^ unitExponent a := by
    rw [Int.cast_zero]
    positivity
  have hnearest : (0 : ℝ) ≤ nearestEven (a / 2 ^ unitExponent a) := by
    exact_mod_cast le_nearestEven hzero
  exact mul_nonneg hnearest (by positivity)

theorem rounded_mono {a b : ℝ} (ha : 0 ≤ a) (h : a ≤ b) : rounded a ≤ rounded b := by
  rcases ha.eq_or_lt with rfl | hpos
  · rw [rounded_zero]
    exact rounded_nonneg h
  unfold rounded
  rcases (unitExponent_mono hpos h).lt_or_eq with hlt | heq
  · have hlow : (nearestEven (a / 2 ^ unitExponent a) : ℝ) ≤ 2 ^ (53 : ℤ) := by
      exact_mod_cast nearestEven_unit_le a
    have hnormal : 2 ^ 52 ≤ nearestEven (b / 2 ^ unitExponent b) :=
      (le_nearestEven_unit (hpos.trans_le h)).resolve_right fun hmin => by
        have := minExponent_le_unitExponent a
        omega
    have hhigh : (2 : ℝ) ^ (52 : ℤ) ≤ nearestEven (b / 2 ^ unitExponent b) := by
      exact_mod_cast hnormal
    calc (nearestEven (a / 2 ^ unitExponent a) : ℝ) * 2 ^ unitExponent a
        ≤ 2 ^ (53 : ℤ) * 2 ^ unitExponent a := by gcongr
      _ = 2 ^ (52 : ℤ) * 2 ^ (unitExponent a + 1) := by
          rw [← zpow_add₀ two_ne_zero, ← zpow_add₀ two_ne_zero]
          congr 1
          ring
      _ ≤ 2 ^ (52 : ℤ) * 2 ^ unitExponent b := by
          gcongr
          · exact one_le_two
          · exact hlt
      _ ≤ nearestEven (b / 2 ^ unitExponent b) * 2 ^ unitExponent b := by gcongr
  · rw [heq]
    have hscaled : a / 2 ^ unitExponent b ≤ b / 2 ^ unitExponent b := by gcongr
    have hnearest : (nearestEven (a / 2 ^ unitExponent b) : ℝ) ≤
        nearestEven (b / 2 ^ unitExponent b) := by
      exact_mod_cast nearestEven_mono hscaled
    gcongr

theorem compare_swap (u v : UnpackedFloat) : v.compare u = (u.compare v).map Ordering.swap := by
  rcases u with s | _ | s | ⟨s, m, e, hm⟩ <;> rcases v with t | _ | t | ⟨t, m', e', hm'⟩ <;>
    (try cases s) <;> (try cases t) <;>
    simp [UnpackedFloat.compare, Ordering.swap_then, Int.compare_swap, Nat.compare_swap] <;> rfl

theorem not_lt_of_le (h : x ≤ y) : ¬ y < x := by
  change decide (x.toModel ≤ y.toModel) = true at h
  rw [decide_eq_true_iff] at h
  change (x.toModel.unpack.compare y.toModel.unpack).any (·.isLE) = true at h
  rw [lt_iff, compare_swap x.toModel.unpack]
  revert h
  cases x.toModel.unpack.compare y.toModel.unpack with
  | none => simp
  | some o => cases o <;> simp

theorem compare_ne_none {u v : UnpackedFloat} (hu : u.isFinite) (hv : v.isFinite) :
    u.compare v ≠ none := by
  rcases u with s | _ | s | ⟨s, m, e, hm⟩ <;> rcases v with t | _ | t | ⟨t, m', e', hm'⟩ <;>
    (try cases s) <;> (try cases t) <;>
    simp_all [UnpackedFloat.compare, UnpackedFloat.isFinite]

theorem le_of_not_lt (hx : x.isFinite) (hy : y.isFinite) (h : ¬ y < x) : x ≤ y := by
  change decide (x.toModel ≤ y.toModel) = true
  rw [decide_eq_true_iff]
  change (x.toModel.unpack.compare y.toModel.unpack).any (·.isLE) = true
  rw [lt_iff, compare_swap x.toModel.unpack] at h
  revert h
  cases hcompare : x.toModel.unpack.compare y.toModel.unpack with
  | none => exact absurd hcompare (compare_ne_none hx hy)
  | some o => cases o <;> simp

theorem toReal_le_of_le (hx : x.isFinite) (hy : y.isFinite) (h : x ≤ y) :
    (ofFloat x).toReal ≤ (ofFloat y).toReal :=
  le_of_not_gt fun hlt => not_lt_of_le h ((lt_iff_toReal hy hx).mpr hlt)

theorem isFinite_zero : (Scalar.ofNat 0 : Float).isFinite :=
  isFinite_iff.mpr ⟨_, _, _, ofFloat_zero_eq⟩

theorem not_less_zero_iff (hx : x.isFinite) :
    ¬ Scalar.less x (Scalar.ofNat 0) ↔ 0 ≤ (ofFloat x).toReal := by
  have hlt := lt_iff_toReal hx isFinite_zero
  rw [ofFloat_zero_eq, toReal_zero] at hlt
  rw [← not_lt, ← hlt]
  exact not_congr decide_eq_true_iff

theorem zero_less_iff (hx : x.isFinite) :
    Scalar.less (Scalar.ofNat 0) x ↔ 0 < (ofFloat x).toReal := by
  have hlt := lt_iff_toReal isFinite_zero hx
  rw [ofFloat_zero_eq, toReal_zero] at hlt
  exact decide_eq_true_iff.trans hlt

theorem not_lt_infinite (hx : x.isFinite) (hy : ofFloat y = infinite true) : ¬ x < y := by
  obtain ⟨s, hs, hsign⟩ := unpack_of_infinite hy
  obtain rfl : s = .negative := sign_inj hsign
  rw [Float.isFinite, Float.Model.isFinite] at hx
  rw [lt_iff, hs]
  cases hu : x.toModel.unpack <;> simp_all [UnpackedFloat.isFinite, UnpackedFloat.compare]

theorem lt_of_le_of_lt (hx : x.isFinite) (hy : y.isFinite) (h : x ≤ y) (hlt : y < z) : x < z := by
  cases hz : ofFloat z with
  | nan => exact absurd hlt (not_lt_nan hz)
  | infinite negative =>
    cases negative with
    | false => exact lt_infinite hx hz
    | true => exact absurd hlt (not_lt_infinite hy hz)
  | finite n m e =>
    have hfinite : z.isFinite := isFinite_iff.mpr ⟨n, m, e, hz⟩
    rw [lt_iff_toReal hx hfinite]
    exact (toReal_le_of_le hx hy h).trans_lt ((lt_iff_toReal hy hfinite).mp hlt)

theorem Holds.isFinite_iff {a : ℝ} (h : Holds n a (ofFloat x)) : x.isFinite ↔ a < 2 ^ 1024 := by
  constructor
  · intro hfinite
    obtain ⟨sign, m, e, hread⟩ := Double.isFinite_iff.mp hfinite
    rw [hread] at h
    exact h.2.2
  · intro hlt
    obtain ⟨m, e, hread, -⟩ := h.exists_finite hlt
    exact Double.isFinite_iff.mpr ⟨n, m, e, hread⟩

theorem Holds.toReal_eq {a : ℝ} (h : Holds n a (ofFloat x)) (hfinite : x.isFinite) :
    (ofFloat x).toReal = if n then -a else a := by
  obtain ⟨m, e, hread, rfl⟩ := h.exists_finite (h.isFinite_iff.mp hfinite)
  rw [hread, toReal_finite]

theorem abs_toReal_finite (n : Bool) (m : Nat) (e : ℤ) : |(finite n m e).toReal| = m * 2 ^ e := by
  have hpos : (0 : ℝ) ≤ m * 2 ^ e := by positivity
  rw [toReal_finite]
  cases n <;> simp [abs_of_nonneg hpos]

theorem equal_zero_iff (hx : x.isFinite) :
    Scalar.equal x (Scalar.ofNat 0) ↔ (ofFloat x).toReal = 0 := by
  have hcompare : Scalar.equal x (Scalar.ofNat 0) =
      (x.toModel.unpack.compare (Float.ofNat 0).toModel.unpack == some .eq) := rfl
  have hzero : (Float.ofNat 0).toModel.unpack = .zero .positive := rfl
  obtain ⟨n, m, e, hread⟩ := isFinite_iff.mp hx
  rw [hcompare, hzero, hread]
  rcases unpack_of_finite hread with ⟨s, hu, -, rfl⟩ | ⟨s, hm, hu, -⟩
  · rw [hu, toReal_zero]
    exact iff_of_true rfl rfl
  · have hpos : (0 : ℝ) < m * 2 ^ e := by positivity
    have hne : (finite n m e).toReal ≠ 0 := by
      rw [← abs_pos, abs_toReal_finite]
      exact hpos
    rw [hu]
    cases s <;> exact iff_of_false (by simp [UnpackedFloat.compare]) hne

/-- A reading that is not below zero has no sign, unless it is zero. -/
theorem isFinite_of_toReal_ne_zero (h : (ofFloat x).toReal ≠ 0) : x.isFinite := by
  cases hx : ofFloat x with
  | finite n m e => exact isFinite_iff.mpr ⟨n, m, e, hx⟩
  | _ =>
    rw [hx] at h
    exact absurd rfl h

theorem toReal_of_nonneg (h : 0 ≤ (finite n m e).toReal) :
    (finite n m e).toReal = m * 2 ^ e ∧ (n = true → m = 0) := by
  refine ⟨by rw [← abs_toReal_finite n, abs_of_nonneg h], fun hn => ?_⟩
  rw [hn, toReal_finite] at h
  by_contra hm
  have hpos : (0 : ℝ) < m * 2 ^ e := by
    have : (0 : ℝ) < m := by exact_mod_cast Nat.pos_of_ne_zero hm
    positivity
  simp at h
  linarith

/-- A product of numbers that are not below zero is the exact one, rounded. -/
theorem mul_of_nonneg (hx : x.isFinite) (hy : y.isFinite) (hx0 : 0 ≤ (ofFloat x).toReal)
    (hy0 : 0 ≤ (ofFloat y).toReal) :
    ((x * y).isFinite ↔ rounded ((ofFloat x).toReal * (ofFloat y).toReal) < 2 ^ 1024) ∧
      ((x * y).isFinite →
        (ofFloat (x * y)).toReal = rounded ((ofFloat x).toReal * (ofFloat y).toReal)) := by
  obtain ⟨n, m, e, hx⟩ := isFinite_iff.mp hx
  obtain ⟨n', m', e', hy⟩ := isFinite_iff.mp hy
  have hproduct := holds_mul hx hy
  rw [hx] at hx0 ⊢
  rw [hy] at hy0 ⊢
  obtain ⟨hvalue, hsign⟩ := toReal_of_nonneg hx0
  obtain ⟨hvalue', hsign'⟩ := toReal_of_nonneg hy0
  rw [hvalue, hvalue']
  refine ⟨hproduct.isFinite_iff, fun hfinite => ?_⟩
  rw [hproduct.toReal_eq hfinite]
  split
  · rename_i hne
    have hzero : m = 0 ∨ m' = 0 := by
      cases n <;> cases n' <;> simp_all
    rcases hzero with rfl | rfl <;> simp
  · rfl

/-- The nearest integer of a number that is not below zero. -/
theorem round?_of_nonneg (hx : x.isFinite) (hx0 : 0 ≤ (ofFloat x).toReal) :
    (ofFloat x).round? = some ⌊(ofFloat x).toReal + 1 / 2⌋ := by
  obtain ⟨n, m, e, hx⟩ := isFinite_iff.mp hx
  rw [hx] at hx0 ⊢
  obtain ⟨hvalue, hsign⟩ := toReal_of_nonneg hx0
  set magnitude : ℕ := if 0 ≤ e then m * twoTo e.toNat
    else (2 * m + twoTo (-e).toNat) / twoTo ((-e).toNat + 1) with hmagnitude
  have hfloor : ⌊(m : ℝ) * 2 ^ e + 1 / 2⌋ = (magnitude : ℤ) := by
    rw [hmagnitude]
    split
    · rename_i he
      have hwhole : (m : ℝ) * 2 ^ e = (m * twoTo e.toNat : ℕ) := by
        change _ = ((m * 2 ^ e.toNat : ℕ) : ℝ)
        push_cast
        rw [← zpow_natCast, Int.toNat_of_nonneg he]
      rw [hwhole, Int.floor_natCast_add]
      norm_num
    · rename_i he
      have hpart : (m : ℝ) * 2 ^ e + 1 / 2 =
          (2 * m + twoTo (-e).toNat : ℕ) / (twoTo ((-e).toNat + 1) : ℕ) := by
        change _ = ((2 * m + 2 ^ (-e).toNat : ℕ) : ℝ) / (2 ^ ((-e).toNat + 1) : ℕ)
        have hscale : (2 : ℝ) ^ e = ((2 : ℝ) ^ (-e).toNat)⁻¹ := by
          rw [← zpow_natCast, Int.toNat_of_nonneg (by omega), zpow_neg, inv_inv]
        rw [hscale]
        push_cast
        rw [pow_succ]
        field_simp
      rw [hpart, Int.floor_div_natCast, Int.floor_natCast]
      rfl
  rw [hvalue, hfloor, round?, ← hmagnitude]
  cases n with
  | false => rfl
  | true =>
    have hzero : magnitude = 0 := by
      have hnone : ⌊((0 : ℕ) : ℝ) * 2 ^ e + 1 / 2⌋ = 0 := by norm_num
      rw [hsign rfl, hnone] at hfloor
      exact_mod_cast hfloor.symm
    rw [hzero]
    rfl

end Double

end EnergyProfile
