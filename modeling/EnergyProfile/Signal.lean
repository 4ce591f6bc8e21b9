import EnergyProfile.Scalar

/-!
# Decimation and smoothing

A recording of hours is too long and too noisy to be thresholded as it is. It is first passed
through a low-pass filter and thinned out by a whole factor, then smoothed by a moving average.
Both steps are centred, so no sample moves in time: the decimated sample `i` stands at the input
sample `i * q`. Outside its samples a signal counts as zero.
-/

namespace EnergyProfile.Signal

set_option autoImplicit false

variable {α : Type} [Scalar α]

open Scalar

/-- How many input samples make one decimated sample: the whole part of the ratio of the rates, at
least one. -/
def decimationFactor (rate target : α) : Nat :=
  match floor? (rate / target) with
  | some z => if 1 ≤ z then clampSize z else 1
  | none => 1

/-- The smoothing window in samples, before it is fitted to the signal. -/
def smoothingWindow (seconds rate : α) : Nat :=
  match round? (seconds * rate) with
  | some z => clampSize z
  | none => 0

/-- Taps on each side of the centre, for each unit of the decimation factor. -/
def sideTaps : Nat := 10

def tapCount (q : Nat) : Nat :=
  2 * sideTaps * q + 1

/-- A sine cut off by a Hamming window: tap `k` of the filter for the factor `q`, before the
filter is brought to unit gain. -/
def rawTap (q k : Nat) : α :=
  let center : α := ofNat (tapCount q - 1) / ofNat 2
  let cutoff : α := ofNat 1 / ofNat q
  let m := ofNat k - center
  let x := pi * cutoff * m
  let sinc := if equal m (ofNat 0) then ofNat 1 else sin x / x
  let window : α :=
    ofDecimal 54 2 - ofDecimal 46 2 * cos (ofNat 2 * pi * ofNat k / ofNat (tapCount q - 1))
  cutoff * sinc * window

def rawTaps (q : Nat) : List α :=
  (List.range (tapCount q)).map (rawTap q)

/-- Whether a sum of taps is too close to zero to divide by: within the distance of one to the next
double. -/
def negligible (gain : α) : Bool :=
  let least : α := ofNat 1 / ofNat 4503599627370496
  !(less least gain || less gain (ofNat 0 - least))

def normalize (taps : List α) : List α :=
  let gain := sum taps
  if negligible gain then taps else taps.map (· / gain)

/-- The low-pass filter ahead of a decimation by `q`, with unit gain for a constant signal. -/
def antiAlias (q : Nat) : List α :=
  normalize (rawTaps (max q 1))

/-- The taps that meet a signal of `n` samples when the filter is centred for the input sample
`center - delay`: tap `k` meets sample `center - k`. -/
def meetingTaps (taps n center : Nat) : List Nat :=
  let first := center + 1 - n
  List.range' first (min center (taps - 1) + 1 - first)

/-- Filters a signal and keeps every `q`-th sample, the filter centred on each one kept. -/
def convolve (taps signal : List α) (q : Nat) : List α :=
  let h := taps.toArray
  let x := signal.toArray
  let delay := (h.size - 1) / 2
  (List.range ((x.size + q - 1) / q)).map fun i =>
    let center := i * q + delay
    sum ((meetingTaps h.size x.size center).map fun k =>
      h.getD k (ofNat 0) * x.getD (center - k) (ofNat 0))

@[simp] theorem length_convolve (taps signal : List α) (q : Nat) :
    (convolve taps signal q).length = (signal.length + q - 1) / q := by
  simp [convolve]

def decimate (signal : List α) (q : Nat) : List α :=
  if q ≤ 1 ∨ signal = [] then signal else convolve (antiAlias q) signal q

@[simp] theorem decimate_one (signal : List α) : decimate signal 1 = signal := by
  simp [decimate]

/-- The sums of the first `0, 1, …` samples. -/
def runningSums (signal : List α) : Array α :=
  (signal.foldl (fun (sums, last) x => (sums.push (last + x), last + x))
    (#[ofNat 0], ofNat 0)).1

def fittedWindow (window n : Nat) : Nat :=
  if n = 0 then max window 1 else min (max window 1) n

/-- The average over a window centred on each sample, and the window applied. The window of sample
`i` ends at `i + (w - 1) / 2`. -/
def movingAverage (signal : List α) (window : Nat) : List α × Nat :=
  let n := signal.length
  let w := fittedWindow window n
  let ahead := (w - 1) / 2
  let sums := runningSums signal
  let scale : α := ofNat 1 / ofNat w
  let average (i : Nat) : α :=
    let last := min (i + ahead) (n - 1)
    let first := i + ahead + 1 - w
    (sums.getD (last + 1) (ofNat 0) - sums.getD first (ofNat 0)) * scale
  ((List.range n).map average, w)

@[simp] theorem length_movingAverage (signal : List α) (window : Nat) :
    (movingAverage signal window).1.length = signal.length := by
  simp [movingAverage]

end EnergyProfile.Signal
