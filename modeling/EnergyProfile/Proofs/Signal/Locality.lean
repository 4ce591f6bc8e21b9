import EnergyProfile.Proofs.Double.Special
import EnergyProfile.Proofs.Exact
import EnergyProfile.Proofs.Segmentation.Stages
import EnergyProfile.Proofs.Totals

/-!
# What an average depends on

A moving average takes the sum up to the end of a window and subtracts the sum up to its start.
Exact numbers leave the samples of the window and nothing else. In other arithmetics the sum carried
in from the samples before the window has a part in the result: two signals that agree in a window
have the same average there if the same sum is carried in. A sample that is not finite is carried
into every window behind it, and the averages of these windows are no numbers.
-/

namespace EnergyProfile

set_option autoImplicit false

namespace Signal

/-- The first sample of the window of sample `i`, in a signal of `n` samples. -/
def windowStart (window n i : Nat) : Nat :=
  i + (fittedWindow window n - 1) / 2 + 1 - fittedWindow window n

/-- The sample behind the window of sample `i`. It may lie outside the signal. -/
def windowStop (window n i : Nat) : Nat :=
  i + (fittedWindow window n - 1) / 2 + 1

/-- Two signals have the same samples in the window of sample `i`. -/
def SameWindow {α : Type} (x y : List α) (window i : Nat) : Prop :=
  ∀ j, windowStart window x.length i ≤ j → j < windowStop window x.length i → x[j]? = y[j]?

def windowSamples {α : Type} (x : List α) (window i : Nat) : List α :=
  (x.take (windowStop window x.length i)).drop (windowStart window x.length i)

theorem SameWindow.windowSamples_eq {α : Type} {x y : List α} {window i : Nat}
    (hlength : x.length = y.length) (h : SameWindow x y window i) :
    windowSamples x window i = windowSamples y window i := by
  apply List.ext_getElem?
  intro k
  unfold windowSamples
  rw [← hlength, List.getElem?_drop, List.getElem?_drop, List.getElem?_take, List.getElem?_take]
  split
  · apply h <;> omega
  · rfl

section Scalar

variable {α : Type} [Scalar α]

open Scalar

/-- The sum of the samples before the window of sample `i`. -/
def carriedIn (x : List α) (window i : Nat) : α :=
  (x.take (windowStart window x.length i)).foldl (· + ·) (ofNat 0)

theorem getD_runningSums {x : List α} {i : Nat} (hi : i ≤ x.length) :
    (runningSums x).getD i (ofNat 0) = (x.take i).foldl (· + ·) (ofNat 0) :=
  getD_foldl_push (· + ·) hi _ _

/-- An average is computed from the samples of its window and the sum carried into it. -/
theorem getElem?_movingAverage {x : List α} {window i : Nat} (hi : i < x.length) :
    (movingAverage x window).1[i]? = some
      (((windowSamples x window i).foldl (· + ·) (carriedIn x window i) - carriedIn x window i) *
        (ofNat 1 / ofNat (fittedWindow window x.length))) := by
  have hstart : windowStart window x.length i ≤ x.length := by
    unfold windowStart fittedWindow
    split <;> omega
  have hstop : x.take (min (i + (fittedWindow window x.length - 1) / 2) (x.length - 1) + 1) =
      x.take (windowStop window x.length i) := by
    rw [List.take_eq_take_iff]
    unfold windowStop
    omega
  have hsplit : x.take (windowStop window x.length i) =
      x.take (windowStart window x.length i) ++ windowSamples x window i := by
    have h := (List.take_append_drop (windowStart window x.length i)
      (x.take (windowStop window x.length i))).symm
    rwa [List.take_take, Nat.min_eq_left (by unfold windowStart windowStop; omega)] at h
  simp only [movingAverage, List.getElem?_map, List.getElem?_range hi, Option.map_some]
  rw [getD_runningSums (show min _ (x.length - 1) + 1 ≤ x.length by omega), hstop, hsplit,
    List.foldl_append]
  rw [show i + (fittedWindow window x.length - 1) / 2 + 1 - fittedWindow window x.length =
    windowStart window x.length i from rfl, getD_runningSums hstart]
  rfl

theorem movingAverage_congr {x y : List α} {window i : Nat} (hlength : x.length = y.length)
    (hsame : SameWindow x y window i) (hcarried : carriedIn x window i = carriedIn y window i) :
    (movingAverage x window).1[i]? = (movingAverage y window).1[i]? := by
  by_cases hi : i < x.length
  · rw [getElem?_movingAverage hi, getElem?_movingAverage (hlength ▸ hi),
      hsame.windowSamples_eq hlength, hcarried, hlength]
  · rw [List.getElem?_eq_none (by simpa using hi),
      List.getElem?_eq_none (by simpa [← hlength] using hi)]

end Scalar

theorem foldl_add_sub (samples : List ℝ) (carried : ℝ) :
    samples.foldl (· + ·) carried - carried = samples.sum := by
  induction samples generalizing carried with
  | nil => simp
  | cons v samples ih =>
    have hv : v + samples.sum = samples.foldl (· + ·) (carried + v) - carried := by
      rw [← ih (carried + v)]
      ring
    rw [List.foldl_cons, List.sum_cons, hv]

/-- What is carried in is taken away again. -/
theorem getElem?_movingAverage_real {x : List ℝ} {window i : Nat} (hi : i < x.length) :
    (movingAverage x window).1[i]? =
      some ((windowSamples x window i).sum * (1 / fittedWindow window x.length)) := by
  rw [getElem?_movingAverage hi, foldl_add_sub, Scalar.ofNat_real, Scalar.ofNat_real, Nat.cast_one]

/-- Exact averages are local. -/
theorem movingAverage_local {x y : List ℝ} {window i : Nat} (hlength : x.length = y.length)
    (hsame : SameWindow x y window i) :
    (movingAverage x window).1[i]? = (movingAverage y window).1[i]? := by
  by_cases hi : i < x.length
  · rw [getElem?_movingAverage_real hi, getElem?_movingAverage_real (hlength ▸ hi),
      hsame.windowSamples_eq hlength, hlength]
  · rw [List.getElem?_eq_none (by simpa using hi),
      List.getElem?_eq_none (by simpa [← hlength] using hi)]

open Double

theorem foldl_of_not_isFinite (samples : List Float) {carried : Float}
    (h : carried.isFinite = false) :
    ofFloat (samples.foldl (· + ·) carried) = ofFloat carried ∨
      ofFloat (samples.foldl (· + ·) carried) = nan := by
  induction samples generalizing carried with
  | nil => exact .inl rfl
  | cons v samples ih =>
    rw [List.foldl_cons]
    rcases add_of_not_isFinite (y := v) h with hadd | hadd
    · have hlost : (carried + v).isFinite = false := by
        rw [not_isFinite_iff, hadd]
        exact not_isFinite_iff.mp h
      rw [← hadd]
      exact ih hlost
    · right
      rcases ih (not_isFinite_iff.mpr (.inl hadd)) with hrest | hrest
      · exact hrest.trans hadd
      · exact hrest

theorem foldl_not_isFinite {samples : List Float} {v : Float} (hv : v ∈ samples)
    (hfinite : v.isFinite = false) (carried : Float) :
    (samples.foldl (· + ·) carried).isFinite = false := by
  obtain ⟨front, back, rfl⟩ := List.append_of_mem hv
  rw [List.foldl_append, List.foldl_cons]
  have hlost := add_not_isFinite (x := front.foldl (· + ·) carried) hfinite
  rw [not_isFinite_iff]
  rcases foldl_of_not_isFinite back hlost with h | h
  · rw [h]
    exact not_isFinite_iff.mp hlost
  · exact .inl h

theorem movingAverage_of_not_isFinite {x : List Float} {window i : Nat} (hi : i < x.length)
    {v : Float} (hv : v ∈ x.take (windowStart window x.length i)) (hfinite : v.isFinite = false) :
    ∃ average, (movingAverage x window).1[i]? = some average ∧ ofFloat average = nan := by
  have hlost : (carriedIn x window i).isFinite = false := foldl_not_isFinite hv hfinite _
  refine ⟨_, getElem?_movingAverage hi, nan_mul ?_⟩
  rcases foldl_of_not_isFinite (windowSamples x window i) hlost with h | h
  · exact sub_of_not_isFinite hlost h
  · exact nan_sub h

theorem threshold_of_not_isFinite {x : List Float} {window i : Nat} (hi : i < x.length) {v : Float}
    (hv : v ∈ x.take (windowStart window x.length i)) (hfinite : v.isFinite = false)
    (limit : Float) : (Mask.threshold (movingAverage x window).1 limit)[i]? = some false := by
  obtain ⟨average, haverage, hnan⟩ := movingAverage_of_not_isFinite hi hv hfinite
  rw [Mask.threshold, List.getElem?_map, haverage, Option.map_some]
  simp [Scalar.less, not_lt_nan hnan]

/-- Two signals that agree in a window have the same average there if the same sum is carried in.
Behind a sample that is not finite they have it only if neither average is a number, and the signal
that has this sample is low. -/
theorem movingAverage_sameWindow {x y : List Float} {window i : Nat}
    (hlength : x.length = y.length) (hi : i < x.length) (hsame : SameWindow x y window i) :
    (carriedIn x window i = carriedIn y window i →
      (movingAverage x window).1[i]? = (movingAverage y window).1[i]?) ∧
    ∀ v ∈ x.take (windowStart window x.length i), v.isFinite = false →
      ((movingAverage x window).1[i]? = (movingAverage y window).1[i]? ↔
        ∃ average, (movingAverage y window).1[i]? = some average ∧ ofFloat average = nan) ∧
      ∀ limit, (Mask.threshold (movingAverage x window).1 limit)[i]? = some false := by
  refine ⟨movingAverage_congr hlength hsame, fun v hv hfinite => ⟨?_, ?_⟩⟩
  · obtain ⟨average, haverage, hnan⟩ := movingAverage_of_not_isFinite hi hv hfinite
    rw [haverage]
    constructor
    · intro h
      exact ⟨average, h.symm, hnan⟩
    · rintro ⟨other, hother, hnan'⟩
      rw [hother, eq_of_nan hnan hnan']
  · exact threshold_of_not_isFinite hi hv hfinite

def lostSignal : List Float := [0 / 0, 1, 1]

def plainSignal : List Float := [0, 1, 1]

theorem sameWindow_lostSignal : SameWindow lostSignal plainSignal 1 2 := by
  intro j hstart hstop
  have hj : j = 2 := by
    have : windowStart 1 lostSignal.length 2 = 2 := by decide
    have : windowStop 1 lostSignal.length 2 = 3 := by decide
    omega
  subst hj
  rfl

theorem movingAverage_sameWindow_of_lost :
    lostSignal.length = plainSignal.length ∧ 2 < lostSignal.length ∧
      SameWindow lostSignal plainSignal 1 2 ∧
      (carriedIn lostSignal 1 2 = carriedIn plainSignal 1 2 →
        (movingAverage lostSignal 1).1[2]? = (movingAverage plainSignal 1).1[2]?) ∧
      ∀ v ∈ lostSignal.take (windowStart 1 lostSignal.length 2), v.isFinite = false →
        ((movingAverage lostSignal 1).1[2]? = (movingAverage plainSignal 1).1[2]? ↔
          ∃ average, (movingAverage plainSignal 1).1[2]? = some average ∧ ofFloat average = nan) ∧
        ∀ limit, (Mask.threshold (movingAverage lostSignal 1).1 limit)[2]? = some false :=
  ⟨rfl, by decide, sameWindow_lostSignal,
    movingAverage_sameWindow rfl (by decide) sameWindow_lostSignal⟩

/-- The last samples are the same and each stands in its window alone, and yet one signal is high
there and the other is not. -/
theorem not_local_behind_lost :
    lostSignal.length = plainSignal.length ∧ SameWindow lostSignal plainSignal 1 2 ∧
      (movingAverage lostSignal 1).1[2]? ≠ (movingAverage plainSignal 1).1[2]? ∧
      (Mask.threshold (movingAverage lostSignal 1).1 0.5)[2]? = some false ∧
      (Mask.threshold (movingAverage plainSignal 1).1 0.5)[2]? = some true := by
  refine ⟨rfl, sameWindow_lostSignal, ?_, ?_, ?_⟩ <;> decide +kernel

end Signal

namespace Segmentation

/-- Behind a sample that is not finite a signal is low until its gaps are closed, whatever its
samples are. -/
theorem thresholded_of_not_isFinite {values : List Float} {p : Params Float} {i : Nat}
    (hi : i < (thresholded values p).length) {v : Float}
    (hv : v ∈ (Signal.decimate values p.factor).take (Signal.windowStart
      (Signal.smoothingWindow p.smoothing p.targetRate)
      (Signal.decimate values p.factor).length i))
    (hfinite : v.isFinite = false) :
    (thresholded values p)[i]? = some false := by
  exact Signal.threshold_of_not_isFinite (by simpa [thresholded] using hi) hv hfinite _

end Segmentation

end EnergyProfile
