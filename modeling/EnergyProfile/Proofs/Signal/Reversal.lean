import EnergyProfile.Proofs.Signal.Convolution
import EnergyProfile.Proofs.Signal.Taps

/-!
# Decimation without a time shift

A centred filter whose taps are the same from both ends does not know the direction of time. A signal
that is turned around before its decimation comes out turned around, as long as its last sample is one
that is kept: what is cut off the filter at one end of the signal is then cut off at the other.
-/

namespace EnergyProfile.Signal

set_option autoImplicit false

open Scalar

theorem extended_reverse (signal : List ℝ) (position : ℤ) :
    extended signal.reverse position = extended signal (signal.length - 1 - position) := by
  rcases lt_or_ge position 0 with hneg | hnonneg
  · rw [extended_of_neg _ hneg, extended_of_length_le (by omega)]
  rcases le_or_gt (signal.length : ℤ) position with hbehind | hinside
  · rw [extended_of_length_le (by simpa using hbehind), extended_of_neg _ (by omega)]
  obtain ⟨j, rfl⟩ := Int.eq_ofNat_of_zero_le hnonneg
  have hj : j < signal.length := by omega
  have hfrom : (signal.length : ℤ) - 1 - j = (signal.length - 1 - j : ℕ) := by omega
  rw [hfrom, extended_natCast, extended_natCast, List.getD_eq_getElem?_getD,
    List.getElem?_reverse hj, List.getD_eq_getElem?_getD]

theorem add_mul_of_dvd {n q i : ℕ} (hq : 1 ≤ q) (hlast : q ∣ n - 1) (hi : i < (n + q - 1) / q) :
    ((n + q - 1) / q - 1 - i) * q + i * q + 1 = n := by
  obtain ⟨c, hc⟩ := hlast
  have hn : 0 < n := by
    by_contra hnone
    rw [Nat.eq_zero_of_not_pos hnone, Nat.div_eq_of_lt (by omega)] at hi
    exact absurd hi (Nat.not_lt_zero i)
  have hlength : (n + q - 1) / q = c + 1 := by
    rw [show n + q - 1 = q * (c + 1) by rw [Nat.mul_succ]; omega, Nat.mul_div_cancel_left _ hq]
  rw [hlength] at hi ⊢
  rw [← Nat.add_mul, show c + 1 - 1 - i + i = c by omega, Nat.mul_comm]
  omega

/-- Taps that are the same from both ends filter a signal that is turned around as they filter the
signal, if the first and the last sample are both kept. -/
theorem convolve_reverse {taps signal : List ℝ} {q d : ℕ} (hq : 1 ≤ q)
    (htaps : taps.length = 2 * d + 1) (hsame : taps.reverse = taps)
    (hlast : q ∣ signal.length - 1) :
    convolve taps signal.reverse q = (convolve taps signal q).reverse := by
  have hne : taps ≠ [] := List.length_pos_iff.mp (htaps ▸ Nat.succ_pos _)
  apply List.ext_getElem?
  intro i
  by_cases hi : i < (convolve taps signal q).length
  · have hi' : i < (convolve taps signal.reverse q).length := by simpa using hi
    have hcenters := add_mul_of_dvd hq hlast (length_convolve taps signal q ▸ hi)
    rw [getElem?_convolve hne hi', List.getElem?_reverse hi, getElem?_convolve hne (by omega),
      length_convolve, htaps]
    generalize ((signal.length + q - 1) / q - 1 - i) * q = later at hcenters ⊢
    generalize i * q = earlier at hcenters ⊢
    congr 1
    rw [← Finset.sum_range_reflect]
    refine Finset.sum_congr rfl fun k hk => ?_
    have hk := Finset.mem_range.mp hk
    have hposition : (signal.length : ℤ) - 1 -
        ((earlier + (2 * d + 1 - 1) / 2 : ℕ) - (2 * d + 1 - 1 - k : ℕ)) =
        (later + (2 * d + 1 - 1) / 2 : ℕ) - k := by
      omega
    have htap := getD_of_reverse_eq hsame (htaps ▸ hk)
    rw [htaps] at htap
    rw [htap, extended_reverse, hposition]
  · rw [List.getElem?_eq_none (by simpa using hi), List.getElem?_eq_none (by simpa using hi)]

theorem decimate_reverse {signal : List ℝ} {q : ℕ} (hq : 1 ≤ q) (hlast : q ∣ signal.length - 1) :
    decimate signal.reverse q = (decimate signal q).reverse := by
  unfold decimate
  simp only [List.reverse_eq_nil_iff]
  split
  · rfl
  · refine convolve_reverse hq (d := 10 * q) ?_ (reverse_antiAlias hq) hlast
    rw [length_antiAlias, Nat.max_eq_left hq, tapCount, sideTaps]
    omega

/-- The low-pass filter is the same from both ends and has unit gain: its raw taps never add up to so
little that they are left as they are. So decimation has no direction in time. -/
theorem decimate_timeless {q : ℕ} (hq : 1 ≤ q) :
    (antiAlias q : List ℝ).length = 20 * q + 1 ∧
    (∀ k ≤ 20 * q, (antiAlias q : List ℝ)[k]? = (antiAlias q)[20 * q - k]?) ∧
    1 / 2 ^ 52 < |(rawTaps q : List ℝ).sum| ∧ (antiAlias q : List ℝ).sum = 1 ∧
    ∀ signal : List ℝ, q ∣ signal.length - 1 →
      decimate signal.reverse q = (decimate signal q).reverse := by
  have hlength : (antiAlias q : List ℝ).length = 20 * q + 1 := by
    rw [length_antiAlias, Nat.max_eq_left hq, tapCount, sideTaps]
  refine ⟨hlength, ?_, ?_, sum_antiAlias hq, fun signal => decimate_reverse hq⟩
  · intro k hk
    have hinside : k < (antiAlias q : List ℝ).length := by omega
    conv_lhs => rw [← reverse_antiAlias hq]
    rw [List.getElem?_reverse hinside, hlength, Nat.add_sub_cancel]
  · exact not_negligible_rawTaps hq

/-- Three samples, of which the first and the last are kept. -/
theorem decimate_timeless_of_three :
    1 ≤ 2 ∧ 2 ∣ ([1, 2, 4] : List ℝ).length - 1 ∧
      (antiAlias 2 : List ℝ)[3]? = (antiAlias 2)[37]? ∧ (antiAlias 2 : List ℝ).sum = 1 ∧
      decimate ([4, 2, 1] : List ℝ) 2 = (decimate [1, 2, 4] 2).reverse := by
  obtain ⟨-, hsame, -, hgain, hreverse⟩ := decimate_timeless (q := 2) (by decide)
  have hlast : 2 ∣ ([1, 2, 4] : List ℝ).length - 1 := ⟨1, rfl⟩
  exact ⟨by decide, hlast, hsame 3 (by decide), hgain, hreverse _ hlast⟩

end EnergyProfile.Signal
