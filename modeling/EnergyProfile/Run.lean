import EnergyProfile.Segmentation
import EnergyProfile.Statistics

/-!
# Runs

A run is a maximal stretch of high samples of a trace. Its leading samples, up to the early
window, are flagged sample by sample; a shorter run is flagged as a whole. A summary aggregates a
channel over a run and over the flagged part of it.
-/

namespace EnergyProfile

set_option autoImplicit false

variable {α : Type}

/-- A stretch of samples, from `start` up to but not including `stop`, with the times of its first
and last sample and the number of its early ones. -/
structure Run (α : Type) where
  start : Nat
  stop : Nat
  startTime : α
  endTime : α
  earlyCount : Nat

namespace Run

def size (r : Run α) : Nat := r.stop - r.start

def duration [Scalar α] (r : Run α) : α := r.endTime - r.startTime

def span (r : Run α) : Span := ⟨r.start, r.stop⟩

end Run

/-- The runs of a trace, and for each of its samples whether it is early in a run. -/
structure RunPartition (α : Type) where
  runs : List (Run α)
  early : Mask

namespace RunPartition

def highCount (p : RunPartition α) : Nat :=
  p.runs.foldl (fun count r => count + r.size) 0

/-- The flags from a position on: the first `window` samples of every span are early. -/
def earlyFrom (window : Nat) : (position : Nat) → List Span → (length : Nat) → Mask
  | position, [], length => List.replicate (length - position) false
  | position, s :: rest, length =>
    let early := min window s.length
    List.replicate (s.start - position) false ++
      (List.replicate early true ++
        (List.replicate (s.length - early) false ++ earlyFrom window s.stop rest length))

variable [Scalar α]

def runOn (samples : Array (Sample α)) (window : Nat) (s : Span) : Run α :=
  let timeAt (i : Nat) : α := (samples[i]?.map Sample.time).getD (Scalar.ofNat 0)
  ⟨s.start, s.stop, timeAt s.start, timeAt (s.stop - 1), min window s.length⟩

def ofMask (trace : Trace α) (mask : Mask) (window : Nat) : Except (Fault α) (RunPartition α) :=
  if mask.length = trace.length then
    let spans := mask.spans
    .ok ⟨spans.map (runOn trace.toArray window), earlyFrom window 0 spans mask.length⟩
  else .error (.lengthMismatch trace.length mask.length)

end RunPartition

structure RunSummary (α : Type) where
  startTime : α
  endTime : α
  duration : α
  size : Nat
  sum : α
  mean : α
  /-- Undefined for a run of one sample. -/
  spread : α
  earlyCount : Nat
  earlySum : α
  /-- Zero with fewer than two early samples. -/
  earlySpread : α

namespace RunSummary

variable [Scalar α]

open Scalar

/-- The spread of the early samples of a run. -/
def earlySpreadOf (early : List α) : α :=
  if early.length < 2 then ofNat 0 else (Stat.of early).spread

/-- A run whose samples and flags are at hand. -/
def ofSamples (run : Run α) (samples : List α) (flags : Mask) : RunSummary α :=
  let stat := Stat.of samples
  let early := (samples.zip flags).filterMap fun (x, flagged) => if flagged then some x else none
  { startTime := run.startTime
    endTime := run.endTime
    duration := run.duration
    size := run.size
    sum := Scalar.sum samples
    mean := stat.mean
    spread := stat.spread
    earlyCount := early.length
    earlySum := Scalar.sum early
    earlySpread := earlySpreadOf early }

end RunSummary

def Run.slice {β : Type} (r : Run α) (xs : Array β) : List β :=
  (xs.extract r.start r.stop).toList

/-- Why runs and flags do not belong to a channel of so many values: there is not one flag for
each, then the first run that goes beyond the end, then the first that runs backwards. -/
def runsFault? (size : Nat) (runs : List (Run α)) (flags : Mask) : Option (Fault α) :=
  if flags.length ≠ size then some (.lengthMismatch size flags.length)
  else
    match runs.find? fun r => size < r.stop with
    | some r => some (.lengthMismatch size r.stop)
    | none =>
      match runs.find? fun r => r.stop < r.start with
      | some r => some (.invalidParameter (.invertedRun r.start r.stop))
      | none => none

def summarizeRuns [Scalar α] (values : List α) (runs : List (Run α)) (flags : Mask) :
    Except (Fault α) (List (RunSummary α)) :=
  match runsFault? values.length runs flags with
  | some fault => .error fault
  | none =>
    let xs := values.toArray
    let fs := flags.toArray
    .ok (runs.map fun r => .ofSamples r (r.slice xs) (r.slice fs))

end EnergyProfile
