import EnergyProfile.Proofs.Segmentation.Words
import EnergyProfile.Proofs.Exact
import Mathlib.Algebra.BigOperators.Intervals
import Mathlib.Analysis.SpecialFunctions.Trigonometric.Bounds
import Mathlib.Analysis.SpecialFunctions.Trigonometric.Sinc

/-!
# The taps of the low-pass filter

A tap depends on its distance from the centre tap alone, so the taps are the same from both ends. They
add up to one after they have been divided by their sum, and over exact arithmetic they always are: the
sum before is never close to zero, for the lobes of the sine part alternate and the first of them, around
the centre, outweighs the others.
-/

namespace EnergyProfile.Signal

set_option autoImplicit false

open Scalar

/-- The window over the sine part, by the offset from the centre of the filter. -/
noncomputable def hamming (q : ℕ) (m : ℝ) : ℝ :=
  ofDecimal 54 2 + ofDecimal 46 2 * Real.cos (Real.pi * m / (sideTaps * q : ℕ))

theorem hamming_eq (q : ℕ) (m : ℝ) :
    hamming q m = 27 / 50 + 23 / 50 * Real.cos (Real.pi * m / (10 * q)) := by
  simp only [hamming, ofDecimal_real, sideTaps, Nat.cast_mul, Nat.cast_ofNat]
  norm_num

/-- The raw tap at an offset from the centre of the filter. -/
noncomputable def offsetTap (q : ℕ) (m : ℝ) : ℝ :=
  1 / q * Real.sinc (Real.pi * m / q) * hamming q m

theorem offsetTap_neg (q : ℕ) (m : ℝ) : offsetTap q (-m) = offsetTap q m := by
  simp only [offsetTap, hamming_eq, mul_neg, neg_div, Real.sinc_neg, Real.cos_neg]

theorem rawTap_eq_offsetTap {q : ℕ} (hq : 1 ≤ q) (k : ℕ) :
    (rawTap q k : ℝ) = offsetTap q (k - 10 * q) := by
  have hpos : (0 : ℝ) < q := by exact_mod_cast hq
  have hcount : ((tapCount q - 1 : ℕ) : ℝ) = 20 * q := by
    rw [tapCount, sideTaps, Nat.add_sub_cancel]
    push_cast
    ring
  have hcenter : (20 * q : ℝ) / 2 = 10 * q := by ring
  have hsine : Real.pi * (1 / q) * ((k : ℝ) - 10 * q) = Real.pi * (k - 10 * q) / q := by ring
  have hphase : 2 * Real.pi * k / (20 * q : ℝ) = Real.pi * (k - 10 * q) / (10 * q) + Real.pi := by
    field_simp
    ring
  have hzero : (k : ℝ) - 10 * q = 0 ↔ Real.pi * (k - 10 * q) / q = 0 := by
    rw [div_eq_zero_iff, mul_eq_zero, or_iff_left hpos.ne', or_iff_right Real.pi_ne_zero]
  have hreal : (rawTap q k : ℝ) = 1 / q * (if (k : ℝ) - (20 * q) / 2 = 0 then 1 else
      Real.sin (Real.pi * (1 / q) * (k - 20 * q / 2)) / (Real.pi * (1 / q) * (k - 20 * q / 2))) *
      (54 / 10 ^ 2 - 46 / 10 ^ 2 * Real.cos (2 * Real.pi * k / (20 * q))) := by
    simp [rawTap, hcount]
  rw [hreal, hcenter, hsine, hphase, Real.cos_add_pi, offsetTap, hamming_eq,
    Real.sinc]
  simp only [hzero]
  ring

theorem rawTap_reflect {q k : ℕ} (hq : 1 ≤ q) (hk : k ≤ 20 * q) :
    (rawTap q (20 * q - k) : ℝ) = rawTap q k := by
  rw [rawTap_eq_offsetTap hq, rawTap_eq_offsetTap hq, ← offsetTap_neg]
  push_cast [hk]
  congr 1
  ring

theorem reverse_rawTaps {q : ℕ} (hq : 1 ≤ q) : (rawTaps q : List ℝ).reverse = rawTaps q := by
  apply List.ext_getElem (by simp)
  intro k hk _
  have hcount : k < 20 * q + 1 := by simpa [rawTaps, tapCount, sideTaps] using hk
  have hlast : tapCount q - 1 - k = 20 * q - k := by
    rw [tapCount, sideTaps]
    omega
  simp only [rawTaps, List.getElem_reverse, List.getElem_map, List.getElem_range, List.length_map,
    List.length_range, hlast]
  exact rawTap_reflect hq (by omega)

theorem reverse_normalize (taps : List ℝ) : (normalize taps).reverse = normalize taps.reverse := by
  simp only [normalize, sum_real, List.sum_reverse]
  split
  · rfl
  · exact List.map_reverse.symm

theorem reverse_antiAlias {q : ℕ} (hq : 1 ≤ q) :
    (antiAlias q : List ℝ).reverse = antiAlias q := by
  rw [antiAlias, Nat.max_eq_left hq, reverse_normalize, reverse_rawTaps hq]

theorem getD_of_reverse_eq {taps : List ℝ} (hsame : taps.reverse = taps) {k : ℕ}
    (hk : k < taps.length) : taps.getD (taps.length - 1 - k) 0 = taps.getD k 0 := by
  conv_rhs => rw [← hsame]
  simp only [List.getD_eq_getElem?_getD, List.getElem?_reverse hk]

theorem negligible_iff (gain : ℝ) : negligible gain = true ↔ |gain| ≤ 1 / 2 ^ 52 := by
  have hleast : ((4503599627370496 : ℕ) : ℝ) = 2 ^ 52 := by norm_num
  simp only [negligible, less_real, ofNat_real, hleast, Nat.cast_one, Nat.cast_zero, zero_sub]
  rw [Bool.not_eq_true', Bool.or_eq_false_iff, decide_eq_false_iff_not, decide_eq_false_iff_not,
    not_lt, not_lt, abs_le, and_comm]

theorem sum_normalize {taps : List ℝ} (h : 1 / 2 ^ 52 < |taps.sum|) : (normalize taps).sum = 1 := by
  have hgain : taps.sum ≠ 0 := by
    intro hzero
    rw [hzero, abs_zero] at h
    exact absurd h (not_lt.mpr (by positivity))
  have hdivided : normalize taps = taps.map (· * taps.sum⁻¹) := by
    simp only [normalize, sum_real, if_neg (mt (negligible_iff _).mp (not_le.mpr h)),
      div_eq_mul_inv]
  rw [hdivided, List.sum_map_mul_right, List.map_id', mul_inv_cancel₀ hgain]

theorem sum_range_mul (f : ℕ → ℝ) (rows width : ℕ) : ∑ m ∈ Finset.range (rows * width), f m =
    ∑ r ∈ Finset.range width, ∑ j ∈ Finset.range rows, f (j * width + r) := by
  rw [Finset.sum_comm]
  induction rows with
  | zero => simp
  | succ rows ih => rw [Nat.succ_mul, Finset.sum_range_add, ih, Finset.sum_range_succ]

theorem sum_range_even {f : ℝ → ℝ} (hf : ∀ m, f (-m) = f m) (n : ℕ) :
    ∑ k ∈ Finset.range (2 * n + 1), f (k - n) = f 0 + 2 * ∑ m ∈ Finset.range n, f (m + 1) := by
  have hbefore : ∑ k ∈ Finset.range n, f (k - n) = ∑ m ∈ Finset.range n, f (m + 1) := by
    rw [← Finset.sum_range_reflect]
    refine Finset.sum_congr rfl fun m hm => ?_
    have hm := Finset.mem_range.mp hm
    rw [← hf, Nat.sub_sub, Nat.cast_sub (by omega)]
    push_cast
    congr 1
    ring
  have hbehind : ∑ m ∈ Finset.range (n + 1), f ((n + m : ℕ) - n) =
      ∑ m ∈ Finset.range n, f (m + 1) + f 0 := by
    rw [Finset.sum_range_succ']
    simp
  rw [show 2 * n + 1 = n + (n + 1) by omega, Finset.sum_range_add, hbefore, hbehind]
  ring

theorem hamming_antitone {q : ℕ} {a b : ℝ} (ha : 0 ≤ a) (hab : a ≤ b) (hb : b ≤ 10 * q) :
    hamming q b ≤ hamming q a := by
  have hq : (0 : ℝ) ≤ 10 * q := by positivity
  have hpi := Real.pi_pos.le
  have hcos : Real.cos (Real.pi * b / (10 * q)) ≤ Real.cos (Real.pi * a / (10 * q)) := by
    apply Real.cos_le_cos_of_nonneg_of_le_pi
    · positivity
    · exact div_le_of_le_mul₀ hq hpi (mul_le_mul_of_nonneg_left hb hpi)
    · gcongr
  rw [hamming_eq, hamming_eq]
  linarith

theorem hamming_nonneg (q : ℕ) (m : ℝ) : 0 ≤ hamming q m := by
  have hcos := Real.neg_one_le_cos (Real.pi * m / (10 * q))
  rw [hamming_eq]
  linarith

theorem half_le_hamming {q : ℕ} {m : ℝ} (hm : 0 ≤ m) (hq : m ≤ 5 * q) : 1 / 2 ≤ hamming q m := by
  have hpi := Real.pi_pos.le
  have hcos : 0 ≤ Real.cos (Real.pi * m / (10 * q)) := by
    apply Real.cos_nonneg_of_mem_Icc
    refine ⟨(neg_nonpos.mpr (by positivity)).trans (by positivity), ?_⟩
    refine div_le_of_le_mul₀ (by positivity) (by positivity) ?_
    nlinarith
  rw [hamming_eq]
  linarith

theorem weight_antitone {q : ℕ} {a b : ℝ} (ha : 0 < a) (hab : a ≤ b) (hb : b ≤ 10 * q) :
    hamming q b / b ≤ hamming q a / a :=
  div_le_div₀ (hamming_nonneg q a) (hamming_antitone ha.le hab hb) ha hab

/-- At the same place in each lobe the sine part has the same magnitude, with signs that alternate. -/
theorem offsetTap_lobe {q : ℕ} (hq : 1 ≤ q) {s : ℝ} (hs : 0 < s) (j : ℕ) :
    offsetTap q (j * q + s) = (-1) ^ j *
      (Real.sin (Real.pi * s / q) / Real.pi * (hamming q (j * q + s) / (j * q + s))) := by
  have hqpos : (0 : ℝ) < q := by exact_mod_cast hq
  have hoffset : (0 : ℝ) < j * q + s := by positivity
  have hphase : Real.pi * (j * q + s) / q = Real.pi * s / q + j * Real.pi := by
    field_simp
    ring
  have hne : Real.pi * (j * q + s) / q ≠ 0 := by
    have := Real.pi_pos
    positivity
  rw [offsetTap, Real.sinc_of_ne_zero hne, hphase, Real.sin_add_nat_mul_pi, ← hphase]
  have := Real.pi_pos
  field_simp

theorem sin_place_nonneg {q : ℕ} {s : ℝ} (hs : 0 ≤ s) (hsq : s ≤ q) :
    0 ≤ Real.sin (Real.pi * s / q) := by
  have hpi := Real.pi_pos.le
  apply Real.sin_nonneg_of_nonneg_of_le_pi
  · positivity
  · exact div_le_of_le_mul₀ (by positivity) hpi (mul_le_mul_of_nonneg_left hsq hpi)

/-- Of the taps at the same place in the ten lobes, those of the first two outweigh the others. -/
theorem first_lobes_le {q : ℕ} (hq : 1 ≤ q) {s : ℝ} (hs : 0 < s) (hsq : s ≤ q) :
    Real.sin (Real.pi * s / q) / Real.pi * (hamming q s / s - hamming q (q + s) / (q + s)) ≤
      ∑ j ∈ Finset.range 10, offsetTap q (j * q + s) := by
  have hqpos : (0 : ℝ) < q := by exact_mod_cast hq
  have hlobes : ∑ j ∈ Finset.range 10, offsetTap q (j * q + s) =
      Real.sin (Real.pi * s / q) / Real.pi *
        ∑ j ∈ Finset.range 10, (-1) ^ j * (hamming q (j * q + s) / (j * q + s)) := by
    rw [Finset.mul_sum]
    refine Finset.sum_congr rfl fun j _ => ?_
    rw [offsetTap_lobe hq hs, mul_left_comm]
  rw [hlobes]
  refine mul_le_mul_of_nonneg_left ?_ (div_nonneg (sin_place_nonneg hs.le hsq) Real.pi_pos.le)
  have hpair (j : ℝ) (hj : 0 ≤ j) (hlast : j ≤ 8) :
      hamming q ((j + 1) * q + s) / ((j + 1) * q + s) ≤ hamming q (j * q + s) / (j * q + s) :=
    weight_antitone (by positivity) (by linarith) (by nlinarith)
  have h2 := hpair 2 (by norm_num) (by norm_num)
  have h4 := hpair 4 (by norm_num) (by norm_num)
  have h6 := hpair 6 (by norm_num) (by norm_num)
  have h8 := hpair 8 (by norm_num) (by norm_num)
  simp only [Finset.sum_range_succ, Finset.sum_range_zero]
  norm_num at h2 h4 h6 h8 ⊢
  linarith

theorem lobes_nonneg {q : ℕ} (hq : 1 ≤ q) {s : ℝ} (hs : 0 < s) (hsq : s ≤ q) :
    0 ≤ ∑ j ∈ Finset.range 10, offsetTap q (j * q + s) := by
  refine le_trans (mul_nonneg ?_ (sub_nonneg.mpr ?_)) (first_lobes_le hq hs hsq)
  · exact div_nonneg (sin_place_nonneg hs.le hsq) Real.pi_pos.le
  · exact weight_antitone hs (by linarith) (by linarith)

/-- In the half of a lobe that is closer to the centre, the taps add up to a share of the whole. -/
theorem share_le_lobes {q : ℕ} (hq : 1 ≤ q) {s : ℝ} (hs : 0 < s) (hsq : 2 * s ≤ q) :
    1 / (6 * q) ≤ ∑ j ∈ Finset.range 10, offsetTap q (j * q + s) := by
  have hqpos : (0 : ℝ) < q := by exact_mod_cast hq
  have hpi := Real.pi_pos
  have hsine : 2 * s / q ≤ Real.sin (Real.pi * s / q) := by
    have hhalf : Real.pi * s / q ≤ Real.pi / 2 := by
      rw [div_le_div_iff₀ hqpos two_pos]
      nlinarith
    calc 2 * s / q = 2 / Real.pi * (Real.pi * s / q) := by field_simp
      _ ≤ Real.sin (Real.pi * s / q) := Real.mul_le_sin (by positivity) hhalf
  have hpositive := sin_place_nonneg (q := q) hs.le (by linarith)
  have hweights : 1 / 2 * (q / (s * (q + s))) ≤
      hamming q s / s - hamming q (q + s) / (q + s) := by
    have hlower : hamming q (q + s) ≤ hamming q s :=
      hamming_antitone hs.le (by linarith) (by linarith)
    calc 1 / 2 * (q / (s * (q + s)))
        ≤ hamming q s * (q / (s * (q + s))) := by
          gcongr
          exact half_le_hamming hs.le (by linarith)
      _ = hamming q s / s - hamming q s / (q + s) := by field_simp; ring
      _ ≤ hamming q s / s - hamming q (q + s) / (q + s) := by gcongr
  calc 1 / (6 * q) ≤ 1 / (Real.pi * (q + s)) := by
        have := Real.pi_le_four
        gcongr 1 / ?_
        nlinarith
    _ = 2 * s / q / Real.pi * (1 / 2 * (q / (s * (q + s)))) := by field_simp
    _ ≤ Real.sin (Real.pi * s / q) / Real.pi *
          (hamming q s / s - hamming q (q + s) / (q + s)) := by gcongr
    _ ≤ _ := first_lobes_le hq hs (by linarith)

theorem sum_rawTaps {q : ℕ} (hq : 1 ≤ q) : (rawTaps q : List ℝ).sum = 1 / q +
    2 * ∑ r ∈ Finset.range q, ∑ j ∈ Finset.range 10, offsetTap q (j * q + (r + 1 : ℕ)) := by
  have hcenter : offsetTap q 0 = 1 / q := by
    norm_num [offsetTap, hamming_eq]
  have hoffsets : (rawTaps q : List ℝ).sum =
      ∑ k ∈ Finset.range (2 * (10 * q) + 1), offsetTap q (k - (10 * q : ℕ)) := by
    have hcount : tapCount q = 2 * (10 * q) + 1 := by
      rw [tapCount, sideTaps]
      ring
    calc (rawTaps q : List ℝ).sum = ∑ k ∈ Finset.range (2 * (10 * q) + 1), rawTap q k := by
          rw [rawTaps, hcount]
          rfl
      _ = _ := by
          refine Finset.sum_congr rfl fun k _ => ?_
          rw [rawTap_eq_offsetTap hq]
          push_cast
          rfl
  rw [hoffsets, sum_range_even (offsetTap_neg q), hcenter, sum_range_mul]
  congr 2
  refine Finset.sum_congr rfl fun r _ => Finset.sum_congr rfl fun j _ => ?_
  push_cast
  congr 1
  ring

/-- The raw taps do not cancel out, whatever the factor. -/
theorem one_sixth_le_sum_rawTaps {q : ℕ} (hq : 1 ≤ q) : 1 / 6 ≤ (rawTaps q : List ℝ).sum := by
  have hqpos : (0 : ℝ) < q := by exact_mod_cast hq
  have hplace {r : ℕ} (hr : r < q) : ((r + 1 : ℕ) : ℝ) ≤ q := by exact_mod_cast hr
  have hhalf : ((q / 2 : ℕ) : ℝ) * (1 / (6 * q)) ≤
      ∑ r ∈ Finset.range q, ∑ j ∈ Finset.range 10, offsetTap q (j * q + (r + 1 : ℕ)) := by
    calc ((q / 2 : ℕ) : ℝ) * (1 / (6 * q)) = ∑ r ∈ Finset.range (q / 2), 1 / (6 * (q : ℝ)) := by
          rw [Finset.sum_const, Finset.card_range, nsmul_eq_mul]
      _ ≤ ∑ r ∈ Finset.range (q / 2), ∑ j ∈ Finset.range 10, offsetTap q (j * q + (r + 1 : ℕ)) := by
          refine Finset.sum_le_sum fun r hr => ?_
          have hr := Finset.mem_range.mp hr
          refine share_le_lobes hq (by positivity) ?_
          exact_mod_cast (by omega : 2 * (r + 1) ≤ q)
      _ ≤ _ := by
          refine Finset.sum_le_sum_of_subset_of_nonneg ?_ fun r hr _ => ?_
          · exact Finset.range_mono (Nat.div_le_self q 2)
          · exact lobes_nonneg hq (by positivity) (hplace (Finset.mem_range.mp hr))
  have hcount : (q : ℝ) ≤ 2 * (q / 2 : ℕ) + 1 := by
    exact_mod_cast (by omega : q ≤ 2 * (q / 2) + 1)
  rw [sum_rawTaps hq]
  calc (1 : ℝ) / 6 ≤ 1 / q + 2 * (((q : ℝ) - 1) / 2 * (1 / (6 * q))) := by
        field_simp
        linarith
    _ ≤ 1 / q + 2 * (((q / 2 : ℕ) : ℝ) * (1 / (6 * q))) := by
        gcongr
        linarith
    _ ≤ _ := by gcongr

theorem not_negligible_rawTaps {q : ℕ} (hq : 1 ≤ q) : 1 / 2 ^ 52 < |(rawTaps q : List ℝ).sum| :=
  calc (1 : ℝ) / 2 ^ 52 < 1 / 6 := by norm_num
    _ ≤ (rawTaps q).sum := one_sixth_le_sum_rawTaps hq
    _ ≤ |(rawTaps q).sum| := le_abs_self _

theorem sum_antiAlias {q : ℕ} (hq : 1 ≤ q) : (antiAlias q : List ℝ).sum = 1 := by
  rw [antiAlias, Nat.max_eq_left hq]
  exact sum_normalize (not_negligible_rawTaps hq)

end EnergyProfile.Signal
