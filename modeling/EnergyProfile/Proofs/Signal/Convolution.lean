import EnergyProfile.Proofs.Segmentation.Access
import EnergyProfile.Proofs.Segmentation.Words
import EnergyProfile.Proofs.Exact
import Mathlib.Algebra.BigOperators.Intervals
import Mathlib.Algebra.Order.Floor.Div

/-!
# Decimation as a convolution

Of a filter only the taps that lie over samples are looked at. Over exact arithmetic the others may
as well be there: a signal is zero outside its samples, so the sum over the taps that meet it is the
sum over all taps. This holds for taps of any kind and does not ask what the filter lets through.
-/

namespace EnergyProfile.Signal

set_option autoImplicit false

open Scalar

/-- The signal on the whole time axis, zero outside its samples. -/
noncomputable def extended (signal : List ℝ) (position : ℤ) : ℝ :=
  if position < 0 then 0 else signal.getD position.toNat 0

theorem extended_natCast (signal : List ℝ) (j : ℕ) : extended signal j = signal.getD j 0 := by
  rw [extended, if_neg (Int.not_lt.mpr (Int.natCast_nonneg j)), Int.toNat_natCast]

theorem extended_of_neg (signal : List ℝ) {position : ℤ} (h : position < 0) :
    extended signal position = 0 :=
  if_pos h

theorem extended_of_length_le {signal : List ℝ} {position : ℤ} (h : signal.length ≤ position) :
    extended signal position = 0 := by
  obtain ⟨j, rfl⟩ := Int.eq_ofNat_of_zero_le ((Int.natCast_nonneg _).trans h)
  rw [extended_natCast, List.getD_eq_getElem?_getD,
    List.getElem?_eq_none (Int.ofNat_le.mp h)]
  rfl

/-- The taps that do not meet a signal lie over zeros, on one side of it or on the other. -/
theorem sum_meetingTaps {taps signal : List ℝ} (htaps : taps ≠ []) (center : ℕ) :
    ((meetingTaps taps.length signal.length center).map fun k =>
      taps.getD k 0 * signal.getD (center - k) 0).sum =
      ∑ k ∈ Finset.range taps.length, taps.getD k 0 * extended signal (center - k) := by
  have hpos : 0 < taps.length := List.length_pos_iff.mpr htaps
  let first := center + 1 - signal.length
  let behind := min center (taps.length - 1) + 1
  have hmeeting : ((meetingTaps taps.length signal.length center).map fun k =>
      taps.getD k 0 * signal.getD (center - k) 0).sum =
        ∑ k ∈ Finset.Ico first behind, taps.getD k 0 * signal.getD (center - k) 0 := rfl
  have hover : ∑ k ∈ Finset.Ico first behind, taps.getD k 0 * signal.getD (center - k) 0 =
      ∑ k ∈ Finset.Ico first behind, taps.getD k 0 * extended signal (center - k) := by
    apply Finset.sum_congr rfl
    intro k hk
    have hle : k ≤ center := by
      have := (Finset.mem_Ico.mp hk).2
      omega
    rw [← Nat.cast_sub hle, extended_natCast]
  rw [hmeeting, hover]
  apply Finset.sum_subset
  · intro k hk
    have := (Finset.mem_Ico.mp hk).2
    exact Finset.mem_range.mpr (by omega)
  · intro k hk hout
    have htap : k < taps.length := Finset.mem_range.mp hk
    rw [Finset.mem_Ico, not_and_or, not_le, not_lt] at hout
    rcases hout with hearly | hlate
    · rw [extended_of_length_le (by omega), mul_zero]
    · rw [extended_of_neg _ (by omega), mul_zero]

theorem getElem?_convolve {taps signal : List ℝ} (htaps : taps ≠ []) {q i : ℕ}
    (hi : i < (convolve taps signal q).length) :
    (convolve taps signal q)[i]? = some (∑ k ∈ Finset.range taps.length,
      taps.getD k 0 * extended signal ((i * q + (taps.length - 1) / 2 : ℕ) - k)) := by
  rw [length_convolve] at hi
  have hread (xs : List ℝ) (j : ℕ) : xs.toArray.getD j (ofNat 0) = xs.getD j 0 := by
    rw [ofNat_real, Nat.cast_zero, Array.getD_eq_getD_getElem?, List.getElem?_toArray,
      List.getD_eq_getElem?_getD]
  simp only [convolve, List.getElem?_map, List.size_toArray, List.getElem?_range hi,
    Option.map_some, hread, sum_real, sum_meetingTaps htaps]

/-- The signal at a lower rate, with these taps for a filter. -/
def decimateWith {α : Type} [Scalar α] (taps signal : List α) (q : ℕ) : List α :=
  if q ≤ 1 ∨ signal = [] then signal else convolve taps signal q

/-- Every `q`-th sample of the convolution of a signal with taps centred on it. What is read on the
way lies inside the taps and the signal, and words are large enough for all positions. -/
structure Convolved (taps signal : List ℝ) (q : ℕ) (out : List ℝ) : Prop where
  length : out.length = signal.length ⌈/⌉ q
  sample : ∀ i < out.length, out[i]? = some (∑ k ∈ Finset.range (20 * q + 1),
    taps.getD k 0 * extended signal (i * q + 10 * q - k))
  inRange : convolve? taps signal q = some out
  inWords : taps.length ≤ maxSize / 2 → signal.length ≤ maxSize / 2 →
    convolveInWords? taps signal q = some out

theorem convolveInWords?_eq {α : Type} [Scalar α] {taps signal : List α} {q : ℕ} (hq : 0 < q)
    (htaps : taps.length ≤ maxSize / 2) (hsignal : signal.length ≤ maxSize / 2) :
    convolveInWords? taps signal q = some (convolve taps signal q) := by
  apply (someIff_convolveInWords? taps signal q).some_of
  intro i hi
  have hstart : i * q < signal.length := by
    have := (Nat.lt_div_iff_mul_lt hq).mp hi
    omega
  unfold maxSize at *
  omega

theorem convolved_convolve {taps signal : List ℝ} {q : ℕ} (hq : 0 < q) (hsignal : signal ≠ [])
    (htaps : taps.length = 20 * q + 1) :
    Convolved taps signal q (convolve taps signal q) := by
  have hne : taps ≠ [] := List.length_pos_iff.mp (htaps ▸ Nat.succ_pos _)
  have hdelay : (taps.length - 1) / 2 = 10 * q := by omega
  constructor
  · rw [length_convolve, Nat.ceilDiv_eq_add_pred_div]
  · intro i hi
    rw [getElem?_convolve hne hi, hdelay, htaps]
    push_cast
    rfl
  · exact convolve?_eq hne hsignal q
  · exact convolveInWords?_eq hq

/-- Decimation is a convolution whatever the taps are, from a factor of two on. Below that, and of a
signal without samples, nothing changes. -/
theorem decimateWith_convolved (taps signal : List ℝ) (q : ℕ) :
    decimate signal q = decimateWith (antiAlias q) signal q ∧
      (2 ≤ q → signal ≠ [] → taps.length = 20 * q + 1 →
        Convolved taps signal q (decimateWith taps signal q)) ∧
      (q ≤ 1 ∨ signal = [] → decimateWith taps signal q = signal) := by
  refine ⟨rfl, ?_, ?_⟩
  · intro hq hne htaps
    have hboth : ¬ (q ≤ 1 ∨ signal = []) := not_or.mpr ⟨by omega, hne⟩
    rw [decimateWith, if_neg hboth]
    exact convolved_convolve (by omega) hne htaps
  · intro hsame
    exact if_pos hsame

noncomputable def risingTaps : List ℝ := (List.range 41).map fun k => (k : ℝ)

/-- The signal is much shorter than the filter, so at both of its samples taps are left out on either
side. -/
theorem decimateWith_convolved_of_risingTaps :
    2 ≤ 2 ∧ ([1, 2, 3] : List ℝ) ≠ [] ∧ risingTaps.length = 20 * 2 + 1 ∧
      Convolved risingTaps [1, 2, 3] 2 (decimateWith risingTaps [1, 2, 3] 2) ∧
      decimateWith risingTaps [1, 2, 3] 2 = [112, 124] ∧
      decimateWith risingTaps [1, 2, 3] 1 = [1, 2, 3] := by
  have hne : ([1, 2, 3] : List ℝ) ≠ [] := by simp
  have hlength : risingTaps.length = 20 * 2 + 1 := by simp [risingTaps]
  obtain ⟨-, hconvolved, -⟩ := decimateWith_convolved risingTaps [1, 2, 3] 2
  obtain ⟨-, -, hsame⟩ := decimateWith_convolved risingTaps [1, 2, 3] 1
  refine ⟨le_refl 2, hne, hlength, hconvolved (le_refl 2) hne hlength, ?_, hsame (.inl (le_refl 1))⟩
  simp [decimateWith, convolve, meetingTaps, risingTaps, List.range_succ, List.range'_succ]
  norm_num

end EnergyProfile.Signal
