import EnergyProfile.Mask
import EnergyProfile.Signal
import EnergyProfile.Trace

/-!
# Segmentation

A signal is decimated, smoothed and thresholded, short gaps are closed, and the mask is carried
back to the rate of the recording, one state for each of its samples. Windows that do not fit the
signal are no fault: what was asked for and what was done is noted.
-/

namespace EnergyProfile

set_option autoImplicit false

variable {α : Type}

structure Params (α : Type) where
  rate : α
  /-- Samples a second to threshold at. -/
  targetRate : α
  /-- The smoothing window in seconds. -/
  smoothing : α
  threshold : α
  /-- Gaps shorter than this are closed, in seconds. -/
  shortestGap : α
  /-- The part of each run that is aggregated on its own, in milliseconds. -/
  earlyWindow : α

namespace Params

variable [Scalar α]

open Scalar

def standard : Params α where
  rate := ofNat 4000
  targetRate := ofNat 2000
  smoothing := ofDecimal 3 2
  threshold := ofDecimal 12 2
  shortestGap := ofDecimal 3 1
  earlyWindow := ofNat 35

def checkRate (name : String) (value : α) : Except (ParameterFault α) Unit :=
  if isFinite value && less (ofNat 0) value then .ok () else .error (.rate name value)

def checkDuration (name : String) (value : α) : Except (ParameterFault α) Unit :=
  if isFinite value && !less value (ofNat 0) then .ok () else .error (.duration name value)

def checkThreshold (value : α) : Except (ParameterFault α) Unit :=
  if isFinite value then .ok () else .error (.threshold value)

/-- Rates come first, then durations, then the threshold. -/
def validate (p : Params α) : Except (ParameterFault α) Unit := do
  checkRate "fs" p.rate
  checkRate "target_fs" p.targetRate
  checkDuration "smooth_s" p.smoothing
  checkDuration "min_gap_s" p.shortestGap
  checkDuration "early_window_ms" p.earlyWindow
  checkThreshold p.threshold

end Params

def earlySamples [Scalar α] (milliseconds rate : α) : Nat :=
  match Scalar.round? (milliseconds * rate / Scalar.ofNat 1000) with
  | some z => clampSize z
  | none => 0

def Params.earlySamples [Scalar α] (p : Params α) : Nat :=
  EnergyProfile.earlySamples p.earlyWindow p.rate

inductive Adjustment where
  /-- The smoothing window was fitted to the signal. -/
  | smoothing (requested applied : Nat)
  /-- The closing window is longer than the signal. -/
  | closing (requested length : Nat)
  deriving DecidableEq

def Adjustment.message : Adjustment → String
  | smoothing requested applied => s!"smoothing window of {requested} samples clamped to {applied}"
  | closing requested length =>
    s!"closing window of {requested} samples exceeds the {length}-sample decimated signal"

/-- A division into high and low, and the sizes it was made with. -/
structure Segmentation where
  mask : Mask
  decimationFactor : Nat
  smoothingWindow : Nat
  closingWindow : Nat
  adjustments : List Adjustment

namespace Segmentation

variable [Scalar α]

/-- Notes the windows that do not fit a decimated signal of so many samples. -/
def adjustmentsFor (smoothing applied closing length : Nat) : List Adjustment :=
  (if applied = smoothing then [] else [.smoothing smoothing applied]) ++
    (if length < closing then [.closing closing length] else [])

/-- Divides a signal by parameters that are known to be valid. -/
def ofValues (values : List α) (p : Params α) : Segmentation :=
  let q := Signal.decimationFactor p.rate p.targetRate
  let decimated := Signal.decimate values q
  let requested := Signal.smoothingWindow p.smoothing p.targetRate
  let (smoothed, applied) := Signal.movingAverage decimated requested
  let gap := Mask.closingWindow p.shortestGap p.targetRate
  let closed := Mask.closeGaps (Mask.threshold smoothed p.threshold) gap
  { mask := Mask.upsample closed q values.length
    decimationFactor := q
    smoothingWindow := applied
    closingWindow := gap
    adjustments := adjustmentsFor requested applied gap decimated.length }

end Segmentation

/-- Divides a signal into high and low. Parameters are checked before anything else. -/
def segment [Scalar α] (values : List α) (p : Params α) : Except (Fault α) Segmentation :=
  match p.validate with
  | .error reason => .error (.invalidParameter reason)
  | .ok () =>
    if values = [] then .error (.malformed .emptySegment) else .ok (.ofValues values p)

end EnergyProfile
