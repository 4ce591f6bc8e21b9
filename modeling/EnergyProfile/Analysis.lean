import EnergyProfile.Run

/-!
# The analysis of a scenario

A trace is divided into high and low and aggregated twice: the energy of each run, and the power
by state over all samples. The series statistics then run across the runs.
-/

namespace EnergyProfile

set_option autoImplicit false

variable {α : Type}

inductive Level where
  | high
  | low
  | all
  deriving DecidableEq

structure LevelStats (α : Type) where
  high : Stat α
  low : Stat α
  all : Stat α

def LevelStats.at (s : LevelStats α) : Level → Stat α
  | .high => s.high
  | .low => s.low
  | .all => s.all

def samplesIn (state : Bool) (values : List α) (mask : Mask) : List α :=
  (values.zip mask).filterMap fun (x, high) => if high = state then some x else none

def LevelStats.of [Scalar α] (values : List α) (mask : Mask) :
    Except (Fault α) (LevelStats α) :=
  if mask.length = values.length then
    .ok ⟨Stat.of (samplesIn true values mask), Stat.of (samplesIn false values mask),
      Stat.of values⟩
  else .error (.lengthMismatch values.length mask.length)

inductive RunField where
  | sum
  | mean
  | duration
  | earlySum
  deriving DecidableEq

def RunField.of : RunField → RunSummary α → α
  | .sum, r => r.sum
  | .mean, r => r.mean
  | .duration, r => r.duration
  | .earlySum, r => r.earlySum

structure SeriesStats (α : Type) where
  runCount : Nat
  energy : Stat α
  duration : Stat α
  earlyEnergy : Stat α

def RunField.stat [Scalar α] (field : RunField) (runs : List (RunSummary α)) : Stat α :=
  Stat.of (runs.map field.of)

def SeriesStats.of [Scalar α] (runs : List (RunSummary α)) : SeriesStats α :=
  ⟨runs.length, RunField.sum.stat runs, RunField.duration.stat runs, RunField.earlySum.stat runs⟩

/-- A power channel in watts as energy in millijoules for each sample. -/
def energyChannel [Scalar α] (values : List α) (rate : α) : List α :=
  let scale : α := Scalar.ofNat 1000 / rate
  values.map (· * scale)

structure Analysis (α : Type) where
  sampleCount : Nat
  highCount : Nat
  decimationFactor : Nat
  adjustments : List Adjustment
  /-- Energy in millijoules. -/
  runs : List (RunSummary α)
  /-- Power in watts. -/
  power : LevelStats α
  series : SeriesStats α

/-- Divides a power trace in watts and aggregates it. -/
def analyze [Scalar α] (trace : Trace α) (p : Params α) : Except (Fault α) (Analysis α) := do
  let values := trace.values
  let segmentation ← segment values p
  let partition ← RunPartition.ofMask trace segmentation.mask p.earlySamples
  let power ← LevelStats.of values segmentation.mask
  let runs ← summarizeRuns (energyChannel values p.rate) partition.runs partition.early
  return {
    sampleCount := trace.length
    highCount := partition.highCount
    decimationFactor := segmentation.decimationFactor
    adjustments := segmentation.adjustments
    runs := runs
    power := power
    series := .of runs }

end EnergyProfile
