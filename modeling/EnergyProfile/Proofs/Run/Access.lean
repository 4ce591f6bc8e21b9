import EnergyProfile.Proofs.Access
import EnergyProfile.Proofs.Run.Partition

/-!
# What runs and summaries read

A run takes two times from the trace, its early flags are written into those of all samples, and a
summary takes the slices of a channel and of the flags. The runs of a mask lie inside the trace, so
the first two stay in range. The third does for runs of any origin, as they are checked before.
-/

namespace EnergyProfile

set_option autoImplicit false

variable {α : Type} [Scalar α]

namespace RunPartition

def runOn? (samples : Array (Sample α)) (window : Nat) (s : Span) : Option (Run α) := do
  let size ← sub? s.stop s.start
  let first ← samples[s.start]?
  let last ← samples[← sub? s.stop 1]?
  return ⟨s.start, s.stop, first.time, last.time, min window size⟩

/-- Raises the flags of the first samples of a span. -/
def flagSpan? (window : Nat) (flags : Mask) (s : Span) : Option Mask := do
  let size ← sub? s.stop s.start
  overwrite? flags s.start (List.replicate (min window size) true)

def early? (window : Nat) (spans : List Span) (length : Nat) : Option Mask :=
  spans.foldlM (flagSpan? window) (List.replicate length false)

def ofMask? (trace : Trace α) (mask : Mask) (window : Nat) :
    ExceptT (Fault α) Option (RunPartition α) :=
  if mask.length = trace.length then do
    let runs ← (mask.spans.mapM (runOn? trace.toArray window) : Option (List (Run α)))
    let early ← early? window mask.spans mask.length
    return ⟨runs, early⟩
  else throw (.lengthMismatch trace.length mask.length)

theorem runOn?_eq {samples : Array (Sample α)} (window : Nat) {s : Span} (hne : s.start < s.stop)
    (hstop : s.stop ≤ samples.size) :
    runOn? samples window s = some (runOn samples window s) := by
  have hfirst : samples[s.start]? = some samples[s.start] := Array.getElem?_eq_getElem _
  have hlast : samples[s.stop - 1]? = some samples[s.stop - 1] := Array.getElem?_eq_getElem _
  rw [runOn?, sub?_eq_some (Nat.le_of_lt hne), sub?_eq_some (Nat.one_le_of_lt hne)]
  simp only [Option.bind_eq_bind, Option.bind_some, hfirst, hlast, runOn, Option.map_some,
    Option.getD_some]
  rfl

theorem flagSpan?_eq (window : Nat) {length : Nat} {s : Span} (written : Mask)
    (hstart : written.length ≤ s.start) (hlt : s.start < s.stop) (hstop : s.stop ≤ length) :
    flagSpan? window (written ++ List.replicate (length - written.length) false) s =
      some (written ++ List.replicate (s.start - written.length) false ++
        List.replicate (min window s.length) true ++
        List.replicate (s.length - min window s.length) false ++
        List.replicate (length - s.stop) false) := by
  have hle : min window s.length ≤ s.stop - s.start := Nat.min_le_right _ _
  have hlow : List.replicate (length - written.length) false =
      List.replicate (s.start - written.length) false ++
        (List.replicate (min window s.length) false ++
          (List.replicate (s.length - min window s.length) false ++
            List.replicate (length - s.stop) false)) := by
    simp only [List.replicate_append_replicate, Span.length]
    congr 1
    omega
  have hbefore : (written ++ List.replicate (s.start - written.length) false).length = s.start := by
    rw [List.length_append, List.length_replicate]
    omega
  have hflagged := overwrite?_append (written ++ List.replicate (s.start - written.length) false)
    (List.replicate (s.length - min window s.length) false ++
      List.replicate (length - s.stop) false)
    (show (List.replicate (min window s.length) false).length =
      (List.replicate (min window s.length) true).length by simp)
  rw [hbefore] at hflagged
  rw [flagSpan?, sub?_eq_some (Nat.le_of_lt hlt), Option.bind_eq_bind, Option.bind_some,
    show s.stop - s.start = s.length from rfl, hlow]
  simpa only [List.append_assoc] using hflagged

/-- Behind the last span the flags are still low, so the next span replaces low flags only. -/
theorem foldlM_flagSpan? (window : Nat) {length : Nat} {spans : List Span} (written : Mask)
    (h : LaidOut length written.length spans) :
    spans.foldlM (flagSpan? window) (written ++ List.replicate (length - written.length) false) =
      some (written ++ earlyFrom window written.length spans length) := by
  induction spans generalizing written with
  | nil => rfl
  | cons s rest ih =>
    obtain ⟨hstart, hlt, hrest⟩ := h
    rw [List.foldlM_cons, flagSpan?_eq window written hstart hlt hrest.position_le,
      Option.bind_eq_bind, Option.bind_some]
    have hlength : (written ++ List.replicate (s.start - written.length) false ++
        List.replicate (min window s.length) true ++
        List.replicate (s.length - min window s.length) false).length = s.stop := by
      simp only [List.length_append, List.length_replicate, Span.length]
      omega
    have hrest := ih _ (hlength.symm ▸ hrest)
    rw [hlength] at hrest
    simpa only [earlyFrom, List.append_assoc] using hrest

theorem early?_eq (window : Nat) (m : Mask) :
    early? window m.spans m.length = some (earlyFrom window 0 m.spans m.length) :=
  foldlM_flagSpan? window [] m.laidOut_spans

theorem ofMask?_eq (trace : Trace α) (mask : Mask) (window : Nat) :
    (ofMask? trace mask window).run = some (ofMask trace mask window) := by
  simp only [ofMask?, ofMask]
  split
  · rename_i h
    have hruns : mask.spans.mapM (runOn? trace.toArray window) =
        some (mask.spans.map (runOn trace.toArray window)) :=
      mapM_eq_some fun s hs => by
        obtain ⟨hne, hstop⟩ := mask.laidOut_spans.mem hs
        exact runOn?_eq window hne (hstop.trans_eq h)
    rw [hruns, early?_eq]
    rfl
  · rfl

end RunPartition

/-- The part of a list that a run covers, all of which must be there. -/
def Run.slice? {β : Type} (r : Run α) (xs : Array β) : Option (List β) :=
  if r.start ≤ r.stop ∧ r.stop ≤ xs.size then some (r.slice xs) else none

/-- The summary of a run that lies inside a channel and its flags. -/
def RunSummary.ofRun? (xs : Array α) (flags : Array Bool) (r : Run α) : Option (RunSummary α) := do
  let samples ← r.slice? xs
  let early ← r.slice? flags
  return .ofSamples r samples early

def summarizeRuns? (values : List α) (runs : List (Run α)) (flags : Mask) :
    ExceptT (Fault α) Option (List (RunSummary α)) :=
  match runsFault? values.length runs flags with
  | some fault => throw fault
  | none => ExceptT.lift (runs.mapM (RunSummary.ofRun? values.toArray flags.toArray))

theorem summarizeRuns?_eq (values : List α) (runs : List (Run α)) (flags : Mask) :
    (summarizeRuns? values runs flags).run = some (summarizeRuns values runs flags) := by
  cases h : runsFault? values.length runs flags with
  | some fault =>
    simp only [summarizeRuns?, summarizeRuns, h]
    rfl
  | none =>
    obtain ⟨hflags, hruns⟩ := runsFault?_eq_none_iff.mp h
    simp only [summarizeRuns?, summarizeRuns, h]
    rw [mapM_eq_some fun r hr => ?_]
    · rfl
    · obtain ⟨hstop, hforward⟩ := hruns r hr
      have hsamples : r.slice? values.toArray = some (r.slice values.toArray) :=
        if_pos ⟨hforward, hstop⟩
      have hearly : r.slice? flags.toArray = some (r.slice flags.toArray) :=
        if_pos ⟨hforward, hstop.trans_eq hflags.symm⟩
      rw [RunSummary.ofRun?, hsamples, hearly]
      rfl

end EnergyProfile
