import EnergyProfile.Proofs.Double.Reading
import EnergyProfile.Proofs.Exact
import Mathlib.Data.Int.Log

/-!
# Rounding

The number next to a real number among the doubles, ties going to the even significand. The
software model computes it from a whole significand and two bits, which say where the exact number
lies between one significand and the next. What is too large for a double becomes infinite.
-/

namespace EnergyProfile

set_option autoImplicit false

open Float.Model UnpackedFloat

/-- The nearest integer, and of two that are equally near the even one. -/
noncomputable def nearestEven (x : ℝ) : ℤ :=
  if Int.fract x < 1 / 2 then ⌊x⌋
  else if 1 / 2 < Int.fract x then ⌊x⌋ + 1
  else ⌊x⌋ + ⌊x⌋ % 2

theorem abs_nearestEven_sub_le (x : ℝ) : |(nearestEven x : ℝ) - x| ≤ 1 / 2 := by
  have hx := Int.floor_add_fract x
  have h0 := Int.fract_nonneg x
  have h1 := Int.fract_lt_one x
  unfold nearestEven
  rw [abs_le]
  split
  · constructor <;> linarith
  · split
    · push_cast
      constructor <;> linarith
    · have hmod : ((⌊x⌋ % 2 : ℤ) : ℝ) = 0 ∨ ((⌊x⌋ % 2 : ℤ) : ℝ) = 1 := by
        rcases Int.emod_two_eq_zero_or_one ⌊x⌋ with h | h <;> simp [h]
      push_cast
      rcases hmod with h | h <;> rw [h] <;> constructor <;> linarith

theorem le_nearestEven {n : ℤ} {x : ℝ} (h : (n : ℝ) ≤ x) : n ≤ nearestEven x := by
  have hnear := (abs_le.mp (abs_nearestEven_sub_le x)).1
  have : (n : ℝ) < nearestEven x + 1 := by linarith
  exact Int.lt_add_one_iff.mp (by exact_mod_cast this)

theorem nearestEven_le {n : ℤ} {x : ℝ} (h : x ≤ n) : nearestEven x ≤ n := by
  have hnear := (abs_le.mp (abs_nearestEven_sub_le x)).2
  have : (nearestEven x : ℝ) < n + 1 := by linarith
  exact Int.lt_add_one_iff.mp (by exact_mod_cast this)

@[simp] theorem nearestEven_intCast (n : ℤ) : nearestEven (n : ℝ) = n :=
  le_antisymm (nearestEven_le le_rfl) (le_nearestEven le_rfl)

namespace Double

/-- The exponent of the last place of a double near `x`. -/
noncomputable def unitExponent (x : ℝ) : ℤ :=
  max (Int.log 2 x - 52) minExponent

/-- The nearest multiple of the last place. -/
noncomputable def rounded (x : ℝ) : ℝ :=
  nearestEven (x / 2 ^ unitExponent x) * 2 ^ unitExponent x

variable {x : ℝ}

theorem lt_unit (x : ℝ) : x < 2 ^ (unitExponent x + 53) := by
  have hlog : x < (2 : ℝ) ^ (Int.log 2 x + 1) := by
    exact_mod_cast Int.lt_zpow_succ_log_self (R := ℝ) one_lt_two x
  refine hlog.trans_le (zpow_le_zpow_right₀ one_le_two ?_)
  have := le_max_left (Int.log 2 x - 52) minExponent
  unfold unitExponent
  omega

theorem unit_le (hx : 0 < x) : 2 ^ (unitExponent x + 52) ≤ x ∨ unitExponent x = minExponent := by
  have hlog : (2 : ℝ) ^ Int.log 2 x ≤ x := by
    exact_mod_cast Int.zpow_log_le_self (R := ℝ) one_lt_two hx
  rcases max_choice (Int.log 2 x - 52) minExponent with h | h
  · left
    rwa [unitExponent, h, Int.sub_add_cancel]
  · exact .inr h

theorem minExponent_le_unitExponent (x : ℝ) : minExponent ≤ unitExponent x :=
  le_max_right _ _

theorem unitExponent_eq {u : ℤ} (hx : 0 < x) (hlt : x < 2 ^ (u + 53)) (hmin : minExponent ≤ u)
    (hle : 2 ^ (u + 52) ≤ x ∨ u = minExponent) : unitExponent x = u := by
  have hbelow {a b : ℤ} (h : (2 : ℝ) ^ (a + 52) ≤ x) (h' : x < 2 ^ (b + 53)) : a ≤ b := by
    have := (zpow_lt_zpow_iff_right₀ (one_lt_two (α := ℝ))).mp (h.trans_lt h')
    omega
  have hmin' := minExponent_le_unitExponent x
  apply le_antisymm
  · rcases unit_le hx with h | h
    · exact hbelow h hlt
    · omega
  · rcases hle with h | h
    · exact hbelow h (lt_unit x)
    · omega

@[simp] theorem rounded_zero : rounded 0 = 0 := by
  have h : nearestEven 0 = 0 := by exact_mod_cast nearestEven_intCast 0
  simp [rounded, h]

theorem abs_rounded_sub_le (x : ℝ) : |rounded x - x| ≤ 2 ^ unitExponent x / 2 := by
  have hpos : (0 : ℝ) < 2 ^ unitExponent x := by positivity
  have h := abs_nearestEven_sub_le (x / 2 ^ unitExponent x)
  have hsub : rounded x - x =
      (nearestEven (x / 2 ^ unitExponent x) - x / 2 ^ unitExponent x) * 2 ^ unitExponent x := by
    rw [rounded, sub_mul, div_mul_cancel₀ _ hpos.ne']
  rw [hsub, abs_mul, abs_of_pos hpos]
  calc _ ≤ 1 / 2 * (2 : ℝ) ^ unitExponent x := by gcongr
    _ = _ := by ring

/-- The relative error of a double, and the absolute one next to zero. -/
theorem abs_rounded_sub_le_max (hx : 0 < x) :
    |rounded x - x| ≤ max (x / 2 ^ 53) (1 / 2 ^ 1075) := by
  refine (abs_rounded_sub_le x).trans ?_
  rcases unit_le hx with h | h
  · apply le_max_of_le_left
    rw [zpow_add₀ two_ne_zero] at h
    rw [le_div_iff₀ (by positivity)]
    calc (2 : ℝ) ^ unitExponent x / 2 * 2 ^ 53 = 2 ^ unitExponent x * 2 ^ (52 : ℤ) := by
          norm_num
          ring
      _ ≤ x := h
  · apply le_max_of_le_right
    have hhalf : (2 : ℝ) ^ minExponent / 2 = 2 ^ (minExponent - 1) := by
      rw [zpow_sub_one₀ two_ne_zero, div_eq_mul_inv]
    rw [h, hhalf, one_div, ← zpow_natCast, ← zpow_neg]
    exact le_rfl

theorem rounded_of_multiple {k : ℤ} (h : x = k * 2 ^ unitExponent x) : rounded x = x := by
  have hpos : (0 : ℝ) < 2 ^ unitExponent x := by positivity
  have hk : x / 2 ^ unitExponent x = k := by rwa [div_eq_iff hpos.ne']
  rw [rounded, hk, nearestEven_intCast, ← h]

/-- Where an exact number lies from a whole significand to the next one. -/
structure Describes (em : ExtendedMantissa) (x : ℝ) : Prop where
  floor_eq : ⌊x⌋ = em.mantissa
  roundBit_iff : em.roundBit ↔ 1 / 2 ≤ Int.fract x
  stickyBit_iff : em.stickyBit ↔ Int.fract x ≠ 0 ∧ Int.fract x ≠ 1 / 2

@[simp] theorem mantissa_ofMantissaAndAccuracy (m : Nat) (acc : Accuracy) :
    (ExtendedMantissa.ofMantissaAndAccuracy m acc).mantissa = m := by
  rcases acc with _ | o
  · rfl
  · cases o <;> rfl

theorem Describes.exact (m : Nat) :
    Describes (ExtendedMantissa.ofMantissaAndAccuracy m .exact) m := by
  refine ⟨Int.floor_natCast m, ?_, ?_⟩ <;>
    simp [ExtendedMantissa.ofMantissaAndAccuracy, Int.fract_natCast]

theorem Describes.roundedMantissa_eq {em : ExtendedMantissa} (h : Describes em x) :
    (em.roundedMantissa : ℤ) = nearestEven x := by
  obtain ⟨m, up, sticky⟩ := em
  obtain ⟨hfloor, hround, hsticky⟩ := h
  simp only at hfloor hround hsticky
  unfold nearestEven
  rw [hfloor]
  cases up with
  | false =>
    rw [if_pos (lt_of_not_ge (by simpa using hround))]
    cases sticky <;> rfl
  | true =>
    have hhalf : 1 / 2 ≤ Int.fract x := by simpa using hround
    rw [if_neg hhalf.not_gt]
    cases sticky with
    | false =>
      have hne : Int.fract x ≠ 0 := by
        intro h
        norm_num [h] at hhalf
      have htie : Int.fract x = 1 / 2 := by simpa [hne] using hsticky
      rw [if_neg htie.not_gt]
      rfl
    | true =>
      have hne : Int.fract x ≠ 1 / 2 := (hsticky.mp rfl).2
      rw [if_pos (lt_of_le_of_ne hhalf hne.symm)]
      rfl

theorem shiftRightOne_eq {q r : Nat} (hr : r = 0 ∨ r = 1) (up sticky : Bool) :
    ExtendedMantissa.shiftRightOne ⟨2 * q + r, up, sticky⟩ = ⟨q, r != 0, up || sticky⟩ := by
  have hq : (2 * q + r) / 2 = q := by omega
  have hr : (2 * q + r) % 2 = r := by omega
  simp only [ExtendedMantissa.shiftRightOne, hq, hr]

theorem Describes.shiftRightOne {em : ExtendedMantissa} (h : Describes em x) :
    Describes em.shiftRightOne (x / 2) := by
  obtain ⟨m, up, sticky⟩ := em
  obtain ⟨q, r, rfl, hr⟩ : ∃ q r, m = 2 * q + r ∧ (r = 0 ∨ r = 1) :=
    ⟨m / 2, m % 2, by omega, by omega⟩
  obtain ⟨hfloor, hround, hsticky⟩ := h
  simp only at hfloor hround hsticky
  have hx := Int.floor_add_fract x
  have h0 := Int.fract_nonneg x
  have h1 := Int.fract_lt_one x
  rw [hfloor] at hx
  push_cast at hx
  have hrest : Int.fract x ≠ 0 ↔ (up || sticky) = true := by
    rw [Bool.or_eq_true, hround, hsticky]
    constructor
    · intro h
      by_cases htie : Int.fract x = 1 / 2
      · exact .inl htie.ge
      · exact .inr ⟨h, htie⟩
    · rintro (h | h) h'
      · norm_num [h'] at h
      · exact h.1 h'
  have hr' : (r : ℝ) = 0 ∨ (r : ℝ) = 1 := by
    rcases hr with rfl | rfl <;> simp
  have hhalf : ⌊x / 2⌋ = (q : ℤ) := by
    rw [Int.floor_eq_iff]
    push_cast
    rcases hr' with h | h <;> rw [h] at hx <;> constructor <;> linarith
  have hfract : Int.fract (x / 2) = (r + Int.fract x) / 2 := by
    rw [Int.fract, hhalf]
    push_cast
    linarith
  rw [shiftRightOne_eq hr]
  refine ⟨hhalf, ?_, ?_⟩
  · rw [hfract]
    rcases hr with rfl | rfl
    · simp
      linarith
    · simp
      linarith
  · rw [← hrest, hfract]
    rcases hr' with h | h <;> rw [h]
    · constructor
      · intro hne
        exact ⟨by simpa using hne, by linarith⟩
      · intro hne
        simpa using hne.1
    · constructor
      · intro hne
        refine ⟨by linarith, fun h' => hne ?_⟩
        linarith
      · intro hne h'
        exact hne.2 (by rw [h']; norm_num)

theorem Describes.shiftRight {em : ExtendedMantissa} (h : Describes em x) (n : Nat) :
    Describes (em >>> n) (x / 2 ^ n) := by
  change Describes (n.repeat ExtendedMantissa.shiftRightOne em) _
  induction n with
  | zero => simpa [Nat.repeat] using h
  | succ n ih =>
    rw [pow_succ, ← div_div]
    exact ih.shiftRightOne

/-- A double stands for a number of known sign and magnitude, or is infinite because the magnitude is
too large. -/
def Holds (negative : Bool) (y : ℝ) : Double → Prop
  | nan => False
  | infinite sign => sign = negative ∧ 2 ^ 1024 ≤ y
  | finite sign m e => sign = negative ∧ m * 2 ^ e = y ∧ y < 2 ^ 1024

theorem Fits.lt_huge {m : Nat} {e : ℤ} (h : Fits m e) : (m : ℝ) * 2 ^ e < 2 ^ 1024 := by
  have hlt : (m : ℝ) < 2 ^ (53 : ℤ) := by exact_mod_cast h.significand_lt
  calc (m : ℝ) * 2 ^ e ≤ m * 2 ^ maxExponent := by
        gcongr
        · exact one_le_two
        · exact h.exponent_le
    _ < 2 ^ (53 : ℤ) * 2 ^ maxExponent := by gcongr
    _ = 2 ^ 1024 := by
        rw [← zpow_add₀ two_ne_zero, maxExponent, ← zpow_natCast]
        rfl

theorem holds_finite (s : Sign) {m : Nat} {e : ℤ} (hm : 0 < m) (hlt : m < 2 ^ 53)
    (hmin : minExponent ≤ e) (hnormal : 2 ^ 52 ≤ m ∨ e = minExponent) :
    Holds (s == .negative) (m * 2 ^ e) (ofFloat (.ofModel (.pack (.finite s m e hm)))) := by
  by_cases hmax : e ≤ maxExponent
  · have hfits : Fits m e := ⟨hlt, hmin, hmax, hnormal⟩
    rw [ofFloat_finite s hm hfits]
    exact ⟨rfl, rfl, hfits.lt_huge⟩
  · rw [ofFloat_overflow s hm (lt_of_not_ge hmax)]
    refine ⟨rfl, ?_⟩
    have hge : 2 ^ 52 ≤ m := hnormal.resolve_right (by
      unfold maxExponent at hmax
      unfold minExponent
      omega)
    have hge : (2 : ℝ) ^ (52 : ℤ) ≤ m := by exact_mod_cast hge
    calc (2 : ℝ) ^ 1024 = 2 ^ (52 : ℤ) * 2 ^ (972 : ℤ) := by
          rw [← zpow_add₀ two_ne_zero, ← zpow_natCast]
          rfl
      _ ≤ m * 2 ^ e := by
          gcongr
          · exact one_le_two
          · unfold maxExponent at hmax
            omega

theorem targetExponent_eq (m : Nat) (e : ℤ) :
    Format.binary64.targetExponent (totalExponent m e) = max (m.log2 + e - 52) minExponent := by
  simp [Format.targetExponent, totalExponent, Format.mantissaBits, Format.minExponent, minExponent]
  omega

theorem targetExponent_eq_unitExponent {m : Nat} {e : ℤ} (hx : 0 < x) (hfloor : ⌊x / 2 ^ e⌋ = m)
    (he : e ≤ unitExponent x) :
    Format.binary64.targetExponent (totalExponent m e) = unitExponent x := by
  have hpos : (0 : ℝ) < 2 ^ e := by positivity
  obtain ⟨hle, hlt⟩ := Int.floor_eq_iff.mp hfloor
  rw [targetExponent_eq]
  rcases Nat.eq_zero_or_pos m with rfl | hm
  · have hsmall : x < 2 ^ e := by simpa [div_lt_one hpos] using hlt
    have hmin : unitExponent x = minExponent := by
      refine (unit_le hx).resolve_left fun h => ?_
      have := (zpow_lt_zpow_iff_right₀ (one_lt_two (α := ℝ))).mp (h.trans_lt hsmall)
      omega
    rw [hmin] at he ⊢
    simp
    omega
  · symm
    have hlog : 2 ^ m.log2 ≤ m := Nat.log2_self_le hm.ne'
    have hlog' : m + 1 ≤ 2 ^ (m.log2 + 1) := Nat.lt_log2_self
    refine unitExponent_eq hx ?_ (le_max_right _ _) ?_
    · have hceil : ((m : ℤ) : ℝ) + 1 ≤ 2 ^ ((m.log2 : ℤ) + 1) := by exact_mod_cast hlog'
      calc x < ((m : ℤ) + 1) * 2 ^ e := (div_lt_iff₀ hpos).mp hlt
        _ ≤ 2 ^ ((m.log2 : ℤ) + 1) * 2 ^ e := by gcongr
        _ = 2 ^ ((m.log2 : ℤ) + 1 + e) := (zpow_add₀ two_ne_zero _ _).symm
        _ ≤ 2 ^ (max (m.log2 + e - 52) minExponent + 53) := by
            apply zpow_le_zpow_right₀ one_le_two
            have := le_max_left ((m.log2 : ℤ) + e - 52) minExponent
            omega
    · rcases max_choice ((m.log2 : ℤ) + e - 52) minExponent with h | h
      · left
        have hfloor' : (2 : ℝ) ^ (m.log2 : ℤ) ≤ (m : ℤ) := by exact_mod_cast hlog
        calc (2 : ℝ) ^ (max (m.log2 + e - 52) minExponent + 52) = 2 ^ (m.log2 : ℤ) * 2 ^ e := by
              rw [h, ← zpow_add₀ two_ne_zero, Int.sub_add_cancel]
          _ ≤ (m : ℤ) * 2 ^ e := by gcongr
          _ ≤ x := (le_div_iff₀ hpos).mp hle
      · exact .inr h

theorem shiftToExponent_eq {m : Nat} {e t : ℤ} (acc : Accuracy) (h : e ≤ t) :
    shiftToExponent m e acc t =
      (ExtendedMantissa.ofMantissaAndAccuracy m acc >>> (t - e).toNat, t) := by
  simp only [shiftToExponent, Prod.mk.injEq, true_and]
  omega

theorem shiftToTargetExponent_of_lt {m : Nat} {u : ℤ} (hm : m < 2 ^ 53) (hmin : minExponent ≤ u) :
    shiftToTargetExponent Format.binary64 m u .exact = (⟨m, false, false⟩, u) := by
  have hlog : m.log2 < 53 := by
    rcases Nat.eq_zero_or_pos m with rfl | hpos
    · decide
    · exact (Nat.log2_lt hpos.ne').mpr hm
  have hnone : (Format.binary64.targetExponent (totalExponent m u) - u).toNat = 0 := by
    rw [targetExponent_eq]
    omega
  simp only [shiftToTargetExponent, shiftToExponent, hnone]
  exact Prod.ext rfl (Int.add_zero u)

theorem shiftToTargetExponent_of_eq {u : ℤ} (hmin : minExponent ≤ u) :
    shiftToTargetExponent Format.binary64 (2 ^ 53) u .exact = (⟨2 ^ 52, false, false⟩, u + 1) := by
  have hone : (Format.binary64.targetExponent (totalExponent (2 ^ 53) u) - u).toNat = 1 := by
    rw [targetExponent_eq, Nat.log2_two_pow]
    omega
  simp only [shiftToTargetExponent, shiftToExponent, hone]
  rfl

theorem nearestEven_unit_le (x : ℝ) : nearestEven (x / 2 ^ unitExponent x) ≤ 2 ^ 53 := by
  have hlt := lt_unit x
  rw [add_comm, zpow_add₀ two_ne_zero] at hlt
  apply nearestEven_le
  rw [div_le_iff₀ (by positivity)]
  exact_mod_cast hlt.le

theorem le_nearestEven_unit (hx : 0 < x) :
    2 ^ 52 ≤ nearestEven (x / 2 ^ unitExponent x) ∨ unitExponent x = minExponent := by
  rcases unit_le hx with hle | hmin
  · left
    rw [add_comm, zpow_add₀ two_ne_zero] at hle
    apply le_nearestEven
    rw [le_div_iff₀ (by positivity)]
    exact_mod_cast hle
  · exact .inr hmin

/-- The first shift leaves the nearest whole number of last places. -/
theorem Describes.shift_eq {m : Nat} {e : ℤ} {acc : Accuracy} (hx : 0 < x)
    (h : Describes (ExtendedMantissa.ofMantissaAndAccuracy m acc) (x / 2 ^ e))
    (he : e ≤ unitExponent x) :
    ∃ em : ExtendedMantissa,
      shiftToTargetExponent Format.binary64 m e acc = (em, unitExponent x) ∧
        (em.roundedMantissa : ℤ) = nearestEven (x / 2 ^ unitExponent x) := by
  have hfloor := h.floor_eq
  rw [mantissa_ofMantissaAndAccuracy] at hfloor
  have hscaled : x / 2 ^ e / 2 ^ (unitExponent x - e).toNat = x / 2 ^ unitExponent x := by
    rw [div_div, ← zpow_natCast, ← zpow_add₀ two_ne_zero, Int.toNat_of_nonneg (by omega)]
    congr 2
    omega
  have hshifted := h.shiftRight (unitExponent x - e).toNat
  rw [hscaled] at hshifted
  refine ⟨_, ?_, hshifted.roundedMantissa_eq⟩
  rw [shiftToTargetExponent, targetExponent_eq_unitExponent hx hfloor he, shiftToExponent_eq acc he]

theorem holds_roundWithAccuracy (s : Sign) {m : Nat} {e : ℤ} {acc : Accuracy} (hx : 0 < x)
    (h : Describes (ExtendedMantissa.ofMantissaAndAccuracy m acc) (x / 2 ^ e))
    (he : e ≤ unitExponent x) :
    Holds (s == .negative) (rounded x)
      (ofFloat (.ofModel (.pack (roundWithAccuracy Format.binary64 s m e acc)))) := by
  have hmin := minExponent_le_unitExponent x
  obtain ⟨em, hfirst, hnearest⟩ := h.shift_eq hx he
  have hle := nearestEven_unit_le x
  have hnormal := le_nearestEven_unit hx
  obtain ⟨r, hr⟩ : ∃ r, em.roundedMantissa = r := ⟨_, rfl⟩
  rw [hr] at hnearest
  rw [rounded, ← hnearest, Int.cast_natCast]
  rw [← hnearest] at hle hnormal
  unfold roundWithAccuracy
  rw [hfirst]
  simp only [hr]
  generalize unitExponent x = u at hmin hnormal ⊢
  have hnormal : 2 ^ 52 ≤ r ∨ u = minExponent := by exact_mod_cast hnormal
  have hle : r ≤ 2 ^ 53 := by exact_mod_cast hle
  rcases hle.lt_or_eq with hlt | rfl
  · simp only [shiftToTargetExponent_of_lt hlt hmin]
    split
    · rename_i hzero
      rw [ofFloat_zero, hzero]
      exact ⟨rfl, by simp, by norm_num⟩
    · exact holds_finite s _ hlt hmin hnormal
  · simp only [shiftToTargetExponent_of_eq hmin]
    have hcarry : ((2 ^ 53 : ℕ) : ℝ) * 2 ^ u = (2 ^ 52 : ℕ) * 2 ^ (u + 1) := by
      rw [zpow_add_one₀ two_ne_zero]
      push_cast
      ring
    rw [hcarry]
    exact holds_finite s (by decide) (by decide) (by omega) (.inl le_rfl)

end Double

end EnergyProfile
