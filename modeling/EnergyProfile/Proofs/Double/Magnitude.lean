import EnergyProfile.Proofs.Double.NoNumber

/-!
# How large a result is

Rounding does not leave a range whose ends are doubles. Products and quotients of finite doubles are
the exact ones, rounded, and so is a whole number of any size.
-/

namespace EnergyProfile

set_option autoImplicit false

open Float.Model UnpackedFloat

namespace Double

variable {x y : Float} {n : Bool} {m : Nat} {e : ℤ}

theorem sign_eq_decide (h : (finite n m e).toReal ≠ 0) :
    n = decide ((finite n m e).toReal < 0) := by
  have hpos : (0 : ℝ) < m * 2 ^ e := by
    rw [← abs_toReal_finite n]
    exact abs_pos.mpr h
  cases n with
  | true => rw [toReal_finite, if_pos rfl, decide_eq_true (neg_neg_of_pos hpos)]
  | false => rw [toReal_finite, if_neg Bool.false_ne_true, decide_eq_false hpos.not_gt]

theorem decide_mul_neg {s t : ℝ} (hs : s ≠ 0) (ht : t ≠ 0) :
    decide (s * t < 0) = (decide (s < 0) != decide (t < 0)) := by
  rcases hs.lt_or_gt with hs | hs <;> rcases ht.lt_or_gt with ht | ht
  · rw [decide_eq_true hs, decide_eq_true ht, decide_eq_false (mul_pos_of_neg_of_neg hs ht).not_gt]
    rfl
  · rw [decide_eq_true hs, decide_eq_false ht.not_gt, decide_eq_true (mul_neg_of_neg_of_pos hs ht)]
    rfl
  · rw [decide_eq_false hs.not_gt, decide_eq_true ht, decide_eq_true (mul_neg_of_pos_of_neg hs ht)]
    rfl
  · rw [decide_eq_false hs.not_gt, decide_eq_false ht.not_gt, decide_eq_false (mul_pos hs ht).not_gt]
    rfl

theorem roundsTo_mul (hx : x.isFinite) (hy : y.isFinite) :
    RoundsTo ((ofFloat x).toReal * (ofFloat y).toReal) (ofFloat (x * y)) := by
  obtain ⟨n, m, e, hx⟩ := isFinite_iff.mp hx
  obtain ⟨n', m', e', hy⟩ := isFinite_iff.mp hy
  have hproduct := holds_mul hx hy
  rw [← abs_toReal_finite n, ← abs_toReal_finite n', ← abs_mul, ← hx, ← hy] at hproduct
  refine ⟨_, hproduct, fun hne => ?_⟩
  obtain ⟨hs, ht⟩ := mul_ne_zero_iff.mp hne
  rw [decide_mul_neg hs ht, hx, hy, ← sign_eq_decide (hx ▸ hs), ← sign_eq_decide (hy ▸ ht)]

theorem positive_of_toReal (hx : x.isFinite) (h : 0 < (ofFloat x).toReal) :
    Positive (ofFloat x) := by
  obtain ⟨n, m, e, hx⟩ := isFinite_iff.mp hx
  rw [hx] at h ⊢
  obtain ⟨hvalue, hsign⟩ := toReal_of_nonneg h.le
  have hm : m ≠ 0 := by
    rintro rfl
    rw [toReal_zero] at h
    exact lt_irrefl 0 h
  obtain rfl : n = false := Bool.eq_false_iff.mpr fun hn => hm (hsign hn)
  exact ⟨m, e, Nat.pos_of_ne_zero hm, rfl⟩

theorem Positive.toReal_pos (h : Positive (ofFloat x)) : 0 < (ofFloat x).toReal := by
  obtain ⟨m, e, hm, hx⟩ := h
  rw [hx, toReal_finite, if_neg Bool.false_ne_true]
  positivity

theorem Positive.isFinite (h : Positive (ofFloat x)) : x.isFinite := by
  obtain ⟨m, e, -, hx⟩ := h
  exact isFinite_iff.mpr ⟨false, m, e, hx⟩

theorem roundsTo_div (hx : x.isFinite) (hy : Positive (ofFloat y)) :
    RoundsTo ((ofFloat x).toReal / (ofFloat y).toReal) (ofFloat (x / y)) := by
  obtain ⟨n, m, e, hx⟩ := isFinite_iff.mp hx
  have hpos := hy.toReal_pos
  obtain ⟨m', e', hm', hy⟩ := hy
  have hquotient := holds_div hx hy hm'
  rw [← abs_toReal_finite n, ← abs_toReal_finite false, ← abs_div, ← hx, ← hy] at hquotient
  refine ⟨_, hquotient, fun hne => ?_⟩
  obtain ⟨hs, -⟩ := div_ne_zero_iff.mp hne
  have hneg : (ofFloat x).toReal / (ofFloat y).toReal < 0 ↔ (ofFloat x).toReal < 0 := by
    rw [div_lt_iff₀ hpos, zero_mul]
  have hsign := sign_eq_decide (hx ▸ hs)
  rw [← hx, ← decide_eq_decide.mpr hneg] at hsign
  rwa [Bool.bne_false]

theorem rounded_two_pow {k : Nat} (hk : k ≤ 1023) : rounded (2 ^ k) = 2 ^ k := by
  have hfits : Fits (2 ^ 52) ((k : ℤ) - 52) := by
    refine ⟨by decide, ?_, ?_, .inl (Nat.le_refl _)⟩
    · unfold minExponent
      omega
    · unfold maxExponent
      omega
  have hpower : ((2 ^ 52 : ℕ) : ℝ) * 2 ^ ((k : ℤ) - 52) = 2 ^ k := by
    rw [Nat.cast_pow, Nat.cast_ofNat, ← zpow_natCast, ← zpow_natCast, ← zpow_add₀ two_ne_zero]
    congr 1
    push_cast
    ring
  rw [← hpower]
  exact rounded_of_fits hfits

theorem rounded_three_two_pow {k : Nat} (hk : k ≤ 1022) : rounded (3 * 2 ^ k) = 3 * 2 ^ k := by
  have hfits : Fits (3 * 2 ^ 51) ((k : ℤ) - 51) := by
    refine ⟨by decide, ?_, ?_, .inl (by decide)⟩
    · unfold minExponent
      omega
    · unfold maxExponent
      omega
  have hpower : ((3 * 2 ^ 51 : ℕ) : ℝ) * 2 ^ ((k : ℤ) - 51) = 3 * 2 ^ k := by
    rw [Nat.cast_mul, Nat.cast_pow, Nat.cast_ofNat, Nat.cast_ofNat, ← zpow_natCast,
      ← zpow_natCast, mul_assoc, ← zpow_add₀ two_ne_zero]
    congr 2
    push_cast
    ring
  rw [← hpower]
  exact rounded_of_fits hfits

theorem RoundsTo.abs_le {s b : ℝ} (h : RoundsTo s (ofFloat x)) (hs : |s| ≤ b)
    (hb : rounded b = b) (hlt : b < 2 ^ 1024) : x.isFinite ∧ |(ofFloat x).toReal| ≤ b := by
  obtain ⟨sign, hholds, -⟩ := h
  have hle : rounded |s| ≤ b := hb ▸ rounded_mono (abs_nonneg s) hs
  have hfinite := hholds.isFinite_iff.mpr (hle.trans_lt hlt)
  refine ⟨hfinite, ?_⟩
  rw [hholds.toReal_eq hfinite]
  have hnonneg := rounded_nonneg (abs_nonneg s)
  split <;> simpa [abs_of_nonneg hnonneg] using hle

/-- A number from one up to a power of two is rounded to a double from one up to it. -/
theorem RoundsTo.one_le {s : ℝ} {k : Nat} (h : RoundsTo s (ofFloat x)) (hs : 1 ≤ s)
    (hle : s ≤ 2 ^ k) (hk : k ≤ 1023) :
    x.isFinite ∧ 1 ≤ (ofFloat x).toReal ∧ (ofFloat x).toReal ≤ 2 ^ k := by
  have hs0 : 0 ≤ s := zero_le_one.trans hs
  obtain ⟨hfinite, habs⟩ := h.abs_le (by rwa [abs_of_nonneg hs0]) (rounded_two_pow hk)
    (pow_lt_pow_right₀ one_lt_two (by omega))
  have hone : rounded ((1 : ℕ) : ℝ) = (1 : ℕ) := rounded_natCast (by decide)
  rw [Nat.cast_one] at hone
  refine ⟨hfinite, ?_, (le_abs_self _).trans habs⟩
  rw [h.toReal_eq hfinite, nearest, if_neg hs0.not_gt, abs_of_nonneg hs0, ← hone]
  exact rounded_mono zero_le_one hs

theorem RoundsTo.nonneg {s : ℝ} (h : RoundsTo s (ofFloat x)) (hx : x.isFinite) (hs : 0 ≤ s) :
    0 ≤ (ofFloat x).toReal := by
  rw [h.toReal_eq hx, nearest, if_neg hs.not_gt]
  exact rounded_nonneg (abs_nonneg s)

theorem RoundsTo.nonpos {s : ℝ} (h : RoundsTo s (ofFloat x)) (hx : x.isFinite) (hs : s ≤ 0) :
    (ofFloat x).toReal ≤ 0 := by
  have hnonneg := rounded_nonneg (abs_nonneg s)
  rw [h.toReal_eq hx, nearest]
  split
  · linarith
  · rename_i hneg
    rw [le_antisymm hs (not_lt.mp hneg), abs_zero, rounded_zero]

theorem holds_ofNat (k : Nat) : Holds false (rounded k) (ofFloat (Float.ofNat k)) := by
  by_cases hk : k < 2 ^ 53
  · obtain ⟨m, e, hread, hvalue⟩ := ofFloat_ofNat hk
    rw [hread, rounded_natCast hk]
    exact ⟨rfl, hvalue, natCast_lt_huge hk⟩
  · have hpos : 0 < k := by omega
    have hone : (1 : ℝ) ≤ k := by exact_mod_cast hpos
    have hmodel : Float.ofNat k = .ofModel (.pack (roundWithAccuracy Format.binary64 .positive
        ((k <<< 53) * 1) (-53 + 0) .exact)) := by
      change Float.ofScientific k false 0 = _
      rw [Float.ofScientific, dif_neg (fun h => hk h.1)]
      simp only [Bool.false_eq_true, if_false, Float.Model.ofScientific, UnpackedFloat.ofScientific]
      have hbound : ¬ Int.ofNat 0 < -(2 ^ 11 + (k.log2 : ℤ)) := by
        change ¬ (0 : ℤ) < -(2 ^ 11 + (k.log2 : ℤ))
        omega
      rw [dif_neg hpos.ne', if_neg (by decide), if_neg hbound, if_pos (by decide)]
      rfl
    rw [hmodel]
    refine holds_roundWithAccuracy .positive (by positivity) ?_ ?_
    · have hexact : (k : ℝ) / (2 : ℝ) ^ (-53 + 0 : ℤ) = ((k <<< 53) * 1 : ℕ) := by
        have hscale : (2 : ℝ) ^ (-53 + 0 : ℤ) = (2 ^ 53)⁻¹ := by norm_num
        rw [hscale, div_inv_eq_mul, mul_one, Nat.shiftLeft_eq, Nat.cast_mul, Nat.cast_pow,
          Nat.cast_ofNat]
      rw [hexact]
      exact Describes.exact _
    · refine exponent_le_of_pow_le ?_
      norm_num
      linarith

theorem roundsTo_ofNat (k : Nat) : RoundsTo k (ofFloat (Float.ofNat k)) := by
  refine ⟨false, ?_, fun _ => (decide_eq_false (Nat.cast_nonneg k).not_gt).symm⟩
  rw [abs_of_nonneg (Nat.cast_nonneg k)]
  exact holds_ofNat k

theorem toReal_ofNat {k : Nat} (hk : k < 2 ^ 53) : (ofFloat (Float.ofNat k)).toReal = k := by
  obtain ⟨m, e, hread, hvalue⟩ := ofFloat_ofNat hk
  rw [hread, toReal_finite, if_neg Bool.false_ne_true, hvalue]

/-- A whole number that a size can count is a finite double, and no smaller than the exact ones below
it. -/
theorem ofNat_of_le_maxSize {k : Nat} (hk : k ≤ maxSize) :
    (Float.ofNat k).isFinite ∧ (ofFloat (Float.ofNat k)).toReal ≤ 2 ^ 64 ∧
      ∀ j, j < 2 ^ 53 → j ≤ k → (j : ℝ) ≤ (ofFloat (Float.ofNat k)).toReal := by
  have hk0 : (0 : ℝ) ≤ k := Nat.cast_nonneg k
  have hle : |(k : ℝ)| ≤ 2 ^ 64 := by
    have : k ≤ 2 ^ 64 := hk.trans (by decide)
    rw [abs_of_nonneg hk0]
    exact_mod_cast this
  obtain ⟨hfinite, habs⟩ := (roundsTo_ofNat k).abs_le hle (rounded_two_pow (by decide))
    (pow_lt_pow_right₀ one_lt_two (by decide))
  refine ⟨hfinite, (le_abs_self _).trans habs, fun j hj hjk => ?_⟩
  rw [(roundsTo_ofNat k).toReal_eq hfinite, nearest, if_neg hk0.not_gt, abs_of_nonneg hk0,
    ← rounded_natCast hj]
  exact rounded_mono (Nat.cast_nonneg j) (by exact_mod_cast hjk)

end Double

end EnergyProfile
