import EnergyProfile.Proofs.Access
import EnergyProfile.Proofs.Mask.Closing
import EnergyProfile.Proofs.Segmentation.Stages

/-!
# What a segmentation reads

The taps that meet a signal, the windows of an average and those of a closing are all found by
arithmetic on positions. Each stage is given in a strict form that reads at these positions and
nowhere else, and agrees with it. So every position lies in range, whatever the factor and the
windows are.
-/

namespace EnergyProfile

set_option autoImplicit false

namespace Signal

variable {α : Type} [Scalar α]

open Scalar

def convolve? (taps signal : List α) (q : Nat) : Option (List α) := do
  let h := taps.toArray
  let x := signal.toArray
  let delay := (← sub? h.size 1) / 2
  (List.range ((x.size + q - 1) / q)).mapM fun i => do
    let center := i * q + delay
    let terms ← (meetingTaps h.size x.size center).mapM fun k => do
      let tap ← h[k]?
      let value ← x[← sub? center k]?
      return tap * value
    return sum terms

def decimate? (signal : List α) (q : Nat) : Option (List α) :=
  if q ≤ 1 ∨ signal = [] then some signal else convolve? (antiAlias q) signal q

def movingAverage? (signal : List α) (window : Nat) : Option (List α × Nat) := do
  let n := signal.length
  let w := fittedWindow window n
  let ahead := (← sub? w 1) / 2
  let sums := runningSums signal
  let scale : α := ofNat 1 / ofNat w
  let averages ← (List.range n).mapM fun i => do
    let last := min (i + ahead) (← sub? n 1)
    let upTo ← sums[last + 1]?
    let before ← sums[i + ahead + 1 - w]?
    return (upTo - before) * scale
  return (averages, w)

/-- A tap that meets a signal is one of the filter's, and it meets a sample. -/
theorem mem_meetingTaps {taps n center k : Nat} (htaps : 0 < taps) (hn : 0 < n)
    (hk : k ∈ meetingTaps taps n center) : k < taps ∧ k ≤ center ∧ center - k < n := by
  obtain ⟨j, hj, rfl⟩ := List.mem_range'.mp hk
  omega

theorem convolve?_eq {taps signal : List α} (htaps : taps ≠ []) (hsignal : signal ≠ []) (q : Nat) :
    convolve? taps signal q = some (convolve taps signal q) := by
  have hh : 0 < taps.toArray.size := List.length_pos_iff.mpr htaps
  have hx : 0 < signal.toArray.size := List.length_pos_iff.mpr hsignal
  simp only [convolve?, sub?_eq_some hh, Option.bind_eq_bind, Option.bind_some]
  refine mapM_eq_some fun i _ => ?_
  rw [mapM_eq_some fun k hk => ?_]
  · rfl
  · obtain ⟨htap, hcenter, hvalue⟩ := mem_meetingTaps hh hx hk
    rw [sub?_eq_some hcenter, getElem?_eq_some_getD htap (ofNat 0), Option.bind_some,
      Option.bind_some, getElem?_eq_some_getD hvalue (ofNat 0)]
    rfl

theorem antiAlias_ne_nil (q : Nat) : (antiAlias q : List α) ≠ [] := by
  have htaps : (rawTaps (max q 1) : List α) ≠ [] := by
    simp [rawTaps, tapCount]
  simp only [antiAlias, normalize]
  split
  · exact htaps
  · simpa using htaps

theorem decimate?_eq (signal : List α) (q : Nat) :
    decimate? signal q = some (decimate signal q) := by
  unfold decimate? decimate
  split
  · rfl
  · rename_i h
    exact convolve?_eq (antiAlias_ne_nil q) (fun hnil => h (.inr hnil)) q

theorem size_runningSums (signal : List α) : (runningSums signal).size = signal.length + 1 :=
  size_foldl_push (· + ·) signal (ofNat 0)

theorem fittedWindow_pos (window n : Nat) : 0 < fittedWindow window n := by
  unfold fittedWindow
  split <;> omega

theorem movingAverage?_eq (signal : List α) (window : Nat) :
    movingAverage? signal window = some (movingAverage signal window) := by
  have hw := fittedWindow_pos window signal.length
  have hstart (i : Nat) (hi : i < signal.length) :
      i + (fittedWindow window signal.length - 1) / 2 + 1 - fittedWindow window signal.length <
        (runningSums signal).size := by
    rw [size_runningSums]
    omega
  have hstop (i : Nat) (hi : i < signal.length) :
      min (i + (fittedWindow window signal.length - 1) / 2) (signal.length - 1) + 1 <
        (runningSums signal).size := by
    rw [size_runningSums]
    omega
  simp only [movingAverage?, sub?_eq_some hw, Option.bind_eq_bind, Option.bind_some]
  rw [mapM_eq_some fun i hi => ?_]
  · rfl
  · have hi := List.mem_range.mp hi
    rw [sub?_eq_some (Nat.one_le_of_lt hi), Option.bind_some,
      getElem?_eq_some_getD (hstop i hi) (ofNat 0), Option.bind_some,
      getElem?_eq_some_getD (hstart i hi) (ofNat 0)]
    rfl

end Signal

namespace Mask

def countWithin? (counts : Array Nat) (first last : Nat) : Option Nat := do
  let n ← sub? counts.size 1
  if n = 0 then return 0
  let last := min last (n - 1)
  if last < first then return 0
  let upTo ← counts[last + 1]?
  let before ← counts[first]?
  sub? upTo before

def dilate? (m : Mask) (back ahead : Nat) : Option Mask :=
  let counts := tally m
  (List.range m.length).mapM fun j => do
    let high ← countWithin? counts (j - back) (j + ahead)
    return 0 < high

def erode? (m : Mask) (back ahead first length : Nat) : Option Mask :=
  let counts := tally m
  (List.range' first length).mapM fun i => do
    let high ← countWithin? counts (i - back) (i + ahead)
    return high == back + ahead + 1

/-- The mask is written into one of low samples. -/
def padded? (m : Mask) (margin : Nat) : Option Mask :=
  overwrite? (List.replicate (m.length + 2 * margin) false) margin m

def closeGaps? (m : Mask) (window : Nat) : Option Mask := do
  let g := max window 1
  if m = [] ∨ g = 1 then return m
  let before := g / 2
  let after ← sub? (g - 1) before
  let extended ← padded? m g
  let dilated ← dilate? extended after before
  erode? dilated before after g m.length

theorem countWithin?_eq (m : Mask) (first last : Nat) :
    countWithin? m.tally first last = some (countWithin m.tally first last) := by
  have hsize : sub? m.tally.size 1 = some m.length := by
    rw [size_tally]
    rfl
  have htally (i : Nat) (hi : i ≤ m.length) : m.tally[i]? = some ((m.take i).count true) := by
    rw [getElem?_eq_some_getD (by rw [size_tally]; omega) 0, getD_tally hi]
  rw [countWithin_tally]
  simp only [countWithin?, hsize, Option.bind_eq_bind, Option.bind_some]
  by_cases hnil : m.length = 0
  · rw [if_pos hnil, List.length_eq_zero_iff.mp hnil, List.take_nil, List.drop_nil]
    rfl
  rw [if_neg hnil]
  by_cases hempty : min last (m.length - 1) < first
  · have hnone : (m.take (last + 1)).drop first = [] :=
      List.drop_eq_nil_iff.mpr (by rw [List.length_take]; omega)
    rw [if_pos hempty, hnone]
    rfl
  · have htake : m.take (min last (m.length - 1) + 1) = m.take (last + 1) := by
      rw [List.take_eq_take_iff]
      omega
    have hsplit := congrArg (List.count true) (List.take_append_drop first (m.take (last + 1)))
    rw [List.count_append, List.take_take, Nat.min_eq_left (by omega)] at hsplit
    rw [if_neg hempty, htally _ (by omega), htally _ (by omega), Option.bind_some,
      Option.bind_some, htake, sub?_eq_some (by omega)]
    congr 1
    omega

theorem dilate?_eq (m : Mask) (back ahead : Nat) :
    dilate? m back ahead = some (dilate m back ahead) := by
  refine mapM_eq_some fun j _ => ?_
  rw [countWithin?_eq]
  rfl

theorem erode?_eq (m : Mask) (back ahead first length : Nat) :
    erode? m back ahead first length = some (erode m back ahead first length) := by
  refine mapM_eq_some fun i _ => ?_
  rw [countWithin?_eq]
  rfl

theorem padded?_eq (m : Mask) (margin : Nat) : padded? m margin = some (padded m margin) := by
  have hblank : List.replicate (m.length + 2 * margin) false =
      List.replicate margin false ++ List.replicate m.length false ++
        List.replicate margin false := by
    rw [List.replicate_append_replicate, List.replicate_append_replicate]
    congr 1
    omega
  have hwritten := overwrite?_append (List.replicate margin false) (List.replicate margin false)
    (List.length_replicate (n := m.length) (a := false))
  rw [List.length_replicate] at hwritten
  rw [padded?, hblank, hwritten, padded]

theorem closeGaps?_eq (m : Mask) (window : Nat) :
    closeGaps? m window = some (closeGaps m window) := by
  simp only [closeGaps?, closeGaps]
  split
  · rfl
  · rw [sub?_eq_some (by omega), padded?_eq]
    simp only [Option.bind_eq_bind, Option.bind_some, dilate?_eq, erode?_eq]

end Mask

namespace Segmentation

variable {α : Type} [Scalar α]

def ofValues? (values : List α) (p : Params α) : Option Segmentation := do
  let q := Signal.decimationFactor p.rate p.targetRate
  let decimated ← Signal.decimate? values q
  let requested := Signal.smoothingWindow p.smoothing p.targetRate
  let (smoothed, applied) ← Signal.movingAverage? decimated requested
  let gap := Mask.closingWindow p.shortestGap p.targetRate
  let closed ← Mask.closeGaps? (Mask.threshold smoothed p.threshold) gap
  return {
    mask := Mask.upsample closed q values.length
    decimationFactor := q
    smoothingWindow := applied
    closingWindow := gap
    adjustments := adjustmentsFor requested applied gap decimated.length }

theorem ofValues?_eq (values : List α) (p : Params α) :
    ofValues? values p = some (ofValues values p) := by
  simp only [ofValues?, Signal.decimate?_eq, Signal.movingAverage?_eq, Mask.closeGaps?_eq,
    Option.bind_eq_bind, Option.bind_some]
  rfl

end Segmentation

end EnergyProfile
