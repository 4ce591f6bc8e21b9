import EnergyProfile.Proofs.Signal.Convolution
import EnergyProfile.Proofs.Signal.Locality
import Mathlib.Order.Interval.Finset.Basic

/-!
# Averages of windows

An average is a difference of two running sums, which are found at the ends of its window after these
have been cut to the signal. Over exact arithmetic the cuts take away zeros only, so the difference is
the sum over the whole window. The divisor is the width that is applied, also where the window reaches
beyond the signal.
-/

namespace EnergyProfile.Signal

set_option autoImplicit false

open Scalar

theorem sum_take_eq (x : List ℝ) (n : ℕ) :
    (x.take n).sum = ∑ j ∈ Finset.range n, x.getD j 0 := by
  induction n with
  | zero => simp
  | succ n ih =>
    have hlast : (x[n]?.toList).sum = x.getD n 0 := by
      rw [List.getD_eq_getElem?_getD]
      cases x[n]? with
      | none => rfl
      | some v => simp
    rw [Finset.sum_range_succ, List.take_add_one, List.sum_append, ih, hlast]

theorem sum_drop_take_eq (x : List ℝ) (first stop : ℕ) :
    ((x.take stop).drop first).sum = ∑ j ∈ Finset.Ico first stop, x.getD j 0 := by
  rw [List.drop_take, sum_take_eq, Finset.sum_Ico_eq_sum_range]
  apply Finset.sum_congr rfl
  intro j _
  rw [List.getD_eq_getElem?_getD, List.getElem?_drop, ← List.getD_eq_getElem?_getD]

/-- Positions before the signal are zero, so a sum may begin anywhere before it. -/
theorem sum_extended (x : List ℝ) (first : ℤ) (last : ℕ) :
    ∑ j ∈ Finset.Icc first last, extended x j =
      ∑ j ∈ Finset.Ico first.toNat (last + 1), x.getD j 0 := by
  have hsamples : ∑ j ∈ Finset.Ico first.toNat (last + 1), x.getD j 0 =
      ∑ j ∈ (Finset.Ico first.toNat (last + 1)).map Nat.castEmbedding, extended x j := by
    rw [Finset.sum_map]
    apply Finset.sum_congr rfl
    intro j _
    exact (extended_natCast x j).symm
  rw [hsamples]
  symm
  apply Finset.sum_subset
  · intro position hposition
    obtain ⟨j, hj, rfl⟩ := Finset.mem_map.mp hposition
    have := Finset.mem_Ico.mp hj
    rw [Nat.castEmbedding_apply, Finset.mem_Icc]
    omega
  · intro position hposition hout
    have := Finset.mem_Icc.mp hposition
    apply extended_of_neg
    by_contra hnonneg
    apply hout
    refine Finset.mem_map.mpr ⟨position.toNat, Finset.mem_Ico.mpr ?_, ?_⟩
    · omega
    · exact Int.toNat_of_nonneg (not_lt.mp hnonneg)

theorem sum_windowSamples {x : List ℝ} {window w : ℕ} (hw : fittedWindow window x.length = w)
    (i : ℕ) : (windowSamples x window i).sum =
      ∑ j ∈ Finset.Icc ((i : ℤ) + ((w : ℤ) - 1) / 2 - (w - 1)) (i + ((w : ℤ) - 1) / 2),
        extended x j := by
  have hpos : 0 < w := hw ▸ fittedWindow_pos window x.length
  have hlast : (i : ℤ) + ((w : ℤ) - 1) / 2 = (i + (w - 1) / 2 : ℕ) := by omega
  have hstart : windowStart window x.length i =
      (((i + (w - 1) / 2 : ℕ) : ℤ) - (w - 1)).toNat := by
    rw [windowStart, hw]
    omega
  rw [windowSamples, sum_drop_take_eq, hlast, sum_extended, hstart, windowStop, hw]

/-- What comes together between two entries of a table of running sums. Both have to be there, and
the one that is taken away must not be the later one. -/
def sumBetween? {α : Type} [Scalar α] (sums : Array α) (first stop : ℕ) : Option α := do
  let _ ← sub? stop first
  let upTo ← sums[stop]?
  let before ← sums[first]?
  return upTo - before

def movingAverageInOrder? {α : Type} [Scalar α] (signal : List α) (window : ℕ) :
    Option (List α × ℕ) := do
  let n := signal.length
  let w := fittedWindow window n
  let ahead := (← sub? w 1) / 2
  let averages ← (List.range n).mapM fun i => do
    let last := min (i + ahead) (← sub? n 1)
    let sum ← sumBetween? (runningSums signal) (i + ahead + 1 - w) (last + 1)
    return sum * (ofNat 1 / ofNat w)
  return (averages, w)

theorem sumBetween?_runningSums {α : Type} [Scalar α] {signal : List α} {first stop : ℕ}
    (horder : first ≤ stop) (hstop : stop ≤ signal.length) :
    sumBetween? (runningSums signal) first stop =
      some ((runningSums signal).getD stop (ofNat 0) -
        (runningSums signal).getD first (ofNat 0)) := by
  have hlast : stop < (runningSums signal).size := by
    rw [size_runningSums]
    omega
  simp only [sumBetween?, sub?_eq_some horder, getElem?_eq_some_getD hlast (ofNat 0),
    getElem?_eq_some_getD (horder.trans_lt hlast) (ofNat 0), Option.bind_eq_bind, Option.bind_some]
  rfl

theorem movingAverageInOrder?_eq {α : Type} [Scalar α] (signal : List α) (window : ℕ) :
    movingAverageInOrder? signal window = some (movingAverage signal window) := by
  have hw := fittedWindow_pos window signal.length
  simp only [movingAverageInOrder?, sub?_eq_some hw, Option.bind_eq_bind, Option.bind_some]
  rw [mapM_eq_some fun i hi => ?_]
  · rfl
  · have hi := List.mem_range.mp hi
    rw [sub?_eq_some (Nat.one_le_of_lt hi), Option.bind_some,
      sumBetween?_runningSums (by omega) (by omega)]
    rfl

/-- The averages of a signal over windows of a width that fits into it. A window of `w` samples ends
`(w - 1) / 2` samples behind its own. The running sums are there and in order, and words are large
enough for all positions. -/
structure Averaged (x : List ℝ) (window : ℕ) (out : List ℝ) (w : ℕ) : Prop where
  width : w = max 1 (min window x.length)
  length : out.length = x.length
  sample : ∀ i < x.length, out[i]? = some (1 / w *
    ∑ j ∈ Finset.Icc ((i : ℤ) + ((w : ℤ) - 1) / 2 - (w - 1)) (i + ((w : ℤ) - 1) / 2),
      extended x j)
  inOrder : movingAverageInOrder? x window = some (out, w)
  inWords : x.length ≤ maxSize / 2 → movingAverageInWords? x window = some (out, w)

theorem movingAverage_averaged {x : List ℝ} (hne : x ≠ []) (window : ℕ) :
    Averaged x window (movingAverage x window).1 (movingAverage x window).2 := by
  have hn : 0 < x.length := List.length_pos_iff.mpr hne
  have hfitted : fittedWindow window x.length = (movingAverage x window).2 := rfl
  constructor
  · rw [← hfitted, fittedWindow, if_neg hn.ne']
    omega
  · exact length_movingAverage x window
  · intro i hi
    rw [getElem?_movingAverage_real hi, mul_comm, sum_windowSamples hfitted, hfitted]
  · exact movingAverageInOrder?_eq x window
  · intro hlength
    exact (someIff_movingAverageInWords? x window).some_of (averageRoomy_of_le window hlength)

/-- The window is wider than the signal and reaches beyond both of its ends. -/
theorem movingAverage_averaged_of_wide :
    ([3, 6, 9] : List ℝ) ≠ [] ∧ movingAverage ([3, 6, 9] : List ℝ) 7 = ([3, 6, 5], 3) ∧
      Averaged [3, 6, 9] 7 [3, 6, 5] 3 := by
  have hne : ([3, 6, 9] : List ℝ) ≠ [] := by simp
  have hvalue : movingAverage ([3, 6, 9] : List ℝ) 7 = ([3, 6, 5], 3) := by
    simp [movingAverage, runningSums, fittedWindow, List.range_succ]
    norm_num
  have haveraged := movingAverage_averaged hne 7
  rw [hvalue] at haveraged
  exact ⟨hne, hvalue, haveraged⟩

end EnergyProfile.Signal
