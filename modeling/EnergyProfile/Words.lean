import EnergyProfile.Analysis

/-!
# Sizes in words

Sizes are held in words of sixty-four bits. Most of them count samples that are there, but the
filter of a decimation and the margins of a closing are as large as rates and durations ask for.
Here every sum and product of sizes that a segmentation computes is checked, and it has no result
where one of them is too large for a word. How much memory there is does not matter.
-/

namespace EnergyProfile

set_option autoImplicit false

/-- A computed size, if a word can hold it. -/
def size? (n : Nat) : Option Nat :=
  if n ≤ maxSize then some n else none

variable {α : Type} [Scalar α]

namespace Signal

open Scalar

def tapCountInWords? (q : Nat) : Option Nat := do
  let sides ← size? (2 * sideTaps * q)
  size? (sides + 1)

def antiAliasInWords? (q : Nat) : Option (List α) := do
  let taps ← tapCountInWords? (max q 1)
  return normalize ((List.range taps).map (rawTap (max q 1)))

def convolveInWords? (taps signal : List α) (q : Nat) : Option (List α) :=
  let h := taps.toArray
  let x := signal.toArray
  let delay := (h.size - 1) / 2
  (List.range ((x.size + q - 1) / q)).mapM fun i => do
    let start ← size? (i * q)
    let center ← size? (start + delay)
    let _ ← size? (center + 1)
    return sum ((meetingTaps h.size x.size center).map fun k =>
      h.getD k (ofNat 0) * x.getD (center - k) (ofNat 0))

def decimateInWords? (signal : List α) (q : Nat) : Option (List α) :=
  if q ≤ 1 ∨ signal = [] then some signal
  else do
    let taps ← antiAliasInWords? q
    convolveInWords? taps signal q

def runningSumsInWords? (signal : List α) : Option (Array α) := do
  let _ ← size? (signal.length + 1)
  return runningSums signal

def movingAverageInWords? (signal : List α) (window : Nat) : Option (List α × Nat) := do
  let n := signal.length
  let w := fittedWindow window n
  let ahead := (w - 1) / 2
  let sums ← runningSumsInWords? signal
  let scale : α := ofNat 1 / ofNat w
  let averages ← (List.range n).mapM fun i => do
    let reach ← size? (i + ahead)
    let beyond ← size? (reach + 1)
    return (sums.getD (min reach (n - 1) + 1) (ofNat 0) - sums.getD (beyond - w) (ofNat 0)) * scale
  return (averages, w)

end Signal

namespace Mask

def tallyInWords? (m : Mask) : Option (Array Nat) := do
  let _ ← size? (m.length + 1)
  return tally m

def dilateInWords? (m : Mask) (back ahead : Nat) : Option Mask := do
  let counts ← tallyInWords? m
  (List.range m.length).mapM fun j => do
    let last ← size? (j + ahead)
    return 0 < countWithin counts (j - back) last

def erodeInWords? (m : Mask) (back ahead first length : Nat) : Option Mask := do
  let counts ← tallyInWords? m
  let _ ← size? (first + length)
  (List.range' first length).mapM fun i => do
    let last ← size? (i + ahead)
    return countWithin counts (i - back) last == back + ahead + 1

def paddedInWords? (m : Mask) (margin : Nat) : Option Mask := do
  let margins ← size? (2 * margin)
  let _ ← size? (m.length + margins)
  return padded m margin

def closeGapsInWords? (m : Mask) (window : Nat) : Option Mask :=
  let g := max window 1
  if m = [] ∨ g = 1 then some m
  else do
    let before := g / 2
    let after := g - 1 - before
    let extended ← paddedInWords? m g
    let dilated ← dilateInWords? extended after before
    erodeInWords? dilated before after g m.length

end Mask

namespace Segmentation

def ofValuesInWords? (values : List α) (p : Params α) : Option Segmentation := do
  let q := Signal.decimationFactor p.rate p.targetRate
  let decimated ← Signal.decimateInWords? values q
  let requested := Signal.smoothingWindow p.smoothing p.targetRate
  let (smoothed, applied) ← Signal.movingAverageInWords? decimated requested
  let gap := Mask.closingWindow p.shortestGap p.targetRate
  let closed ← Mask.closeGapsInWords? (Mask.threshold smoothed p.threshold) gap
  return {
    mask := Mask.upsample closed q values.length
    decimationFactor := q
    smoothingWindow := applied
    closingWindow := gap
    adjustments := adjustmentsFor requested applied gap decimated.length }

end Segmentation

def segmentInWords? (values : List α) (p : Params α) : ExceptT (Fault α) Option Segmentation :=
  match p.validate with
  | .error reason => throw (.invalidParameter reason)
  | .ok () =>
    if values = [] then throw (.malformed .emptySegment)
    else ExceptT.lift (Segmentation.ofValuesInWords? values p)

def analyzeInWords? (trace : Trace α) (p : Params α) : ExceptT (Fault α) Option (Analysis α) := do
  let _ ← segmentInWords? trace.values p
  ExceptT.mk (some (analyze trace p))

end EnergyProfile
