import EnergyProfile.Fault

/-!
# Traces

A trace is a sequence of samples, each a time and a value. A recording is a trace that holds at
least one sample; the windows cut from it may be empty.
-/

namespace EnergyProfile

set_option autoImplicit false

/-- A value and the time it was measured at, in seconds. -/
structure Sample (α : Type) where
  time : α
  value : α

abbrev Trace (α : Type) := List (Sample α)

namespace Trace

variable {α : Type}

def times (t : Trace α) : List α := t.map Sample.time

def values (t : Trace α) : List α := t.map Sample.value

def duration [Scalar α] (t : Trace α) : α :=
  match t.head?, t.getLast? with
  | some first, some last => last.time - first.time
  | _, _ => Scalar.ofNat 0

@[simp] theorem length_values (t : Trace α) : t.values.length = t.length := by
  simp [values]

@[simp] theorem length_times (t : Trace α) : t.times.length = t.length := by
  simp [times]

end Trace

structure Recording (α : Type) where
  samples : Trace α
  nonempty : samples ≠ []

namespace Recording

variable {α : Type}

def size (r : Recording α) : Nat := r.samples.length

/-- A recording of the given samples, if there are any. -/
def ofSamples (samples : Trace α) : Except (Fault α) (Recording α) :=
  if h : samples = [] then .error (.malformed .noSamples) else .ok ⟨samples, h⟩

def ofColumns (times values : List α) : Except (Fault α) (Recording α) :=
  if times.length = values.length then ofSamples (List.zipWith Sample.mk times values)
  else .error (.lengthMismatch times.length values.length)

variable [Scalar α]

open Scalar

/-- A recording at a fixed rate: sample `i` is taken at `i / rate`. -/
def ofValues (values : List α) (rate : α) : Except (Fault α) (Recording α) :=
  if isFinite rate && less (ofNat 0) rate then
    ofColumns ((List.range values.length).map fun i => ofNat i / rate) values
  else .error (.invalidParameter (.sampleRate rate))

/-- The index of the sample at a time, within a recording of so many samples. -/
def sampleIndex (rate time : α) (size : Nat) : Nat :=
  match floor? (time * rate) with
  | some z => min z.toNat size
  | none => if less (ofNat 0) (time * rate) then size else 0

/-- The samples between two times, counted by index from the start of the recording. -/
def window (r : Recording α) (start stop rate : α) : Trace α :=
  let first := sampleIndex rate start r.size
  let last := max (sampleIndex rate stop r.size) first
  (r.samples.take last).drop first

end Recording

end EnergyProfile
