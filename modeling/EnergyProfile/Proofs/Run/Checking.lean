import EnergyProfile.Proofs.Run.Access
import Mathlib.Data.List.Forall2

/-!
# Which runs are summarized

Runs and flags of any origin are checked before a sample is read. Those that belong to a channel are
summarized one by one, and every other list of runs is refused with one fault: the number of flags goes
first, a run that ends beyond the values next, a run that goes backwards last, and among runs of one
kind the first one is blamed.
-/

namespace EnergyProfile

set_option autoImplicit false

variable {α : Type}

/-- Runs and flags that belong to a channel of so many values. -/
structure RunsFit (size : Nat) (runs : List (Run α)) (flags : Mask) : Prop where
  flags : flags.length = size
  runs : ∀ r ∈ runs, r.start ≤ r.stop ∧ r.stop ≤ size

/-- The fault of runs and flags that do not. Later checks are made only where all earlier ones hold, and
what they blame has nothing of its kind before it. -/
inductive RunsBlamed (size : Nat) (runs : List (Run α)) (flags : Mask) : Fault α → Prop where
  | flags (h : flags.length ≠ size) : RunsBlamed size runs flags (.lengthMismatch size flags.length)
  | beyond {before rest : List (Run α)} {r : Run α} (hflags : flags.length = size)
      (hruns : runs = before ++ r :: rest) (hbefore : ∀ b ∈ before, b.stop ≤ size)
      (h : size < r.stop) : RunsBlamed size runs flags (.lengthMismatch size r.stop)
  | backward {before rest : List (Run α)} {r : Run α} (hflags : flags.length = size)
      (hinside : ∀ b ∈ runs, b.stop ≤ size) (hruns : runs = before ++ r :: rest)
      (hbefore : ∀ b ∈ before, b.start ≤ b.stop) (h : r.stop < r.start) :
      RunsBlamed size runs flags (.invalidParameter (.invertedRun r.start r.stop))

theorem runsFit_iff_runsFault? {size : Nat} {runs : List (Run α)} {flags : Mask} :
    RunsFit size runs flags ↔ runsFault? size runs flags = none := by
  rw [runsFault?_eq_none_iff]
  constructor
  · intro h
    exact ⟨h.flags, fun r hr => (h.runs r hr).symm⟩
  · rintro ⟨hflags, hruns⟩
    exact ⟨hflags, fun r hr => (hruns r hr).symm⟩

theorem runsFault?_of_blamed {size : Nat} {runs : List (Run α)} {flags : Mask} {fault : Fault α}
    (h : RunsBlamed size runs flags fault) : runsFault? size runs flags = some fault := by
  cases h with
  | flags h => simp [runsFault?, h]
  | @beyond before rest r hflags hruns hbefore h =>
    have hfind : runs.find? (fun r => decide (size < r.stop)) = some r := by
      refine List.find?_eq_some_iff_append.mpr ⟨decide_eq_true h, before, rest, hruns, ?_⟩
      intro b hb
      simpa using hbefore b hb
    simp [runsFault?, hflags, hfind]
  | @backward before rest r hflags hinside hruns hbefore h =>
    have hnone : runs.find? (fun r => decide (size < r.stop)) = none := by
      refine List.find?_eq_none.mpr fun b hb => ?_
      simpa using hinside b hb
    have hfind : runs.find? (fun r => decide (r.stop < r.start)) = some r := by
      refine List.find?_eq_some_iff_append.mpr ⟨decide_eq_true h, before, rest, hruns, ?_⟩
      intro b hb
      simpa using hbefore b hb
    simp [runsFault?, hflags, hnone, hfind]

theorem blamed_of_runsFault? {size : Nat} {runs : List (Run α)} {flags : Mask} {fault : Fault α}
    (h : runsFault? size runs flags = some fault) : RunsBlamed size runs flags fault := by
  simp only [runsFault?] at h
  split at h
  · rename_i hflags
    obtain rfl := Option.some.inj h
    exact .flags hflags
  · rename_i hflags
    rw [not_not] at hflags
    split at h
    · rename_i r hbeyond
      obtain rfl := Option.some.inj h
      obtain ⟨hlt, before, rest, hruns, hbefore⟩ := List.find?_eq_some_iff_append.mp hbeyond
      refine .beyond hflags hruns (fun b hb => ?_) (of_decide_eq_true hlt)
      simpa using hbefore b hb
    · rename_i hinside
      split at h
      · rename_i r hbackward
        obtain rfl := Option.some.inj h
        obtain ⟨hlt, before, rest, hruns, hbefore⟩ := List.find?_eq_some_iff_append.mp hbackward
        refine .backward hflags (fun b hb => ?_) hruns (fun b hb => ?_) (of_decide_eq_true hlt)
        · simpa using List.find?_eq_none.mp hinside b hb
        · simpa using hbefore b hb
      · cases h

theorem runsFault?_eq_some_iff {size : Nat} {runs : List (Run α)} {flags : Mask} {fault : Fault α} :
    runsFault? size runs flags = some fault ↔ RunsBlamed size runs flags fault :=
  ⟨blamed_of_runsFault?, runsFault?_of_blamed⟩

/-- A run is summarized over its samples and flags, all of which are there, and counts the flags that are
set among them. -/
structure Run.Counted [Scalar α] (r : Run α) (values : List α) (flags : Mask) (s : RunSummary α) :
    Prop where
  readSamples : r.slice? values.toArray = some ((values.drop r.start).take s.size)
  readFlags : r.slice? flags.toArray = some ((flags.drop r.start).take s.size)
  summary : s = .ofSamples r ((values.drop r.start).take s.size) ((flags.drop r.start).take s.size)
  size : sub? r.stop r.start = some s.size
  earlyCount : s.earlyCount = ((flags.drop r.start).take s.size).count true

variable [Scalar α]

theorem Run.counted_ofSamples {r : Run α} {values : List α} {flags : Mask}
    (hflags : flags.length = values.length) (hforward : r.start ≤ r.stop)
    (hinside : r.stop ≤ values.length) :
    r.Counted values flags
      (.ofSamples r (r.slice values.toArray) (r.slice flags.toArray)) := by
  have hsamples : r.slice? values.toArray = some (r.slice values.toArray) :=
    if_pos ⟨hforward, hinside⟩
  have hearly : r.slice? flags.toArray = some (r.slice flags.toArray) :=
    if_pos ⟨hforward, hinside.trans_eq hflags.symm⟩
  constructor
  · rw [hsamples, Run.slice_toArray]
    rfl
  · rw [hearly, Run.slice_toArray]
    rfl
  · rw [Run.slice_toArray, Run.slice_toArray]
    rfl
  · exact sub?_eq_some hforward
  · have hslices : (r.slice flags.toArray).length = (r.slice values.toArray).length := by
      rw [Run.slice_toArray, Run.slice_toArray]
      simp [hflags]
    refine (length_samplesIn true hslices).trans ?_
    rw [Run.slice_toArray]
    rfl

theorem summarizeRuns_eq_error_iff {values : List α} {runs : List (Run α)} {flags : Mask}
    {fault : Fault α} :
    summarizeRuns values runs flags = .error fault ↔
      RunsBlamed values.length runs flags fault := by
  rw [← runsFault?_eq_some_iff]
  cases hfault : runsFault? values.length runs flags with
  | none => simp [summarizeRuns, hfault]
  | some other => simp [summarizeRuns, hfault]

theorem summarizeRuns_of_fit {values : List α} {runs : List (Run α)} {flags : Mask}
    (h : RunsFit values.length runs flags) :
    ∃ summaries, summarizeRuns values runs flags = .ok summaries ∧
      List.Forall₂ (fun r s => r.Counted values flags s) runs summaries := by
  have hfault := runsFit_iff_runsFault?.mp h
  refine ⟨runs.map fun r => .ofSamples r (r.slice values.toArray) (r.slice flags.toArray), ?_, ?_⟩
  · simp only [summarizeRuns, hfault]
  · rw [List.forall₂_map_right_iff, List.forall₂_same]
    intro r hr
    obtain ⟨hforward, hinside⟩ := h.runs r hr
    exact Run.counted_ofSamples h.flags hforward hinside

theorem exists_summarizeRuns_iff {values : List α} {runs : List (Run α)} {flags : Mask} :
    (∃ summaries, summarizeRuns values runs flags = .ok summaries) ↔
      RunsFit values.length runs flags := by
  constructor
  · rintro ⟨summaries, hok⟩
    rw [runsFit_iff_runsFault?, Option.eq_none_iff_forall_ne_some]
    intro fault hfault
    have herror := summarizeRuns_eq_error_iff.mpr (blamed_of_runsFault? hfault)
    rw [hok] at herror
    cases herror
  · intro h
    obtain ⟨summaries, hok, _⟩ := summarizeRuns_of_fit h
    exact ⟨summaries, hok⟩

/-- Any runs and flags are either summarized, each run by itself and in order, or blamed for the first
check that they fail. Nothing is read or subtracted that is not there. -/
theorem summarizeRuns_checked (values : List α) (runs : List (Run α)) (flags : Mask) :
    ((∃ summaries, summarizeRuns values runs flags = .ok summaries) ↔
      RunsFit values.length runs flags) ∧
    (∀ summaries, summarizeRuns values runs flags = .ok summaries →
      List.Forall₂ (fun r s => r.Counted values flags s) runs summaries) ∧
    (∀ fault, summarizeRuns values runs flags = .error fault ↔
      RunsBlamed values.length runs flags fault) ∧
    (summarizeRuns? values runs flags).run = some (summarizeRuns values runs flags) := by
  refine ⟨exists_summarizeRuns_iff, ?_, ?_, summarizeRuns?_eq values runs flags⟩
  · intro summaries hok
    have hfit := exists_summarizeRuns_iff.mp ⟨summaries, hok⟩
    obtain ⟨others, hothers, hcounted⟩ := summarizeRuns_of_fit hfit
    rw [hok] at hothers
    rwa [Except.ok.inj hothers]
  · intro fault
    exact summarizeRuns_eq_error_iff

/-- A run that ends beyond the values is blamed before another one that goes backwards. -/
example : runsFault? 3 [⟨2, 1, (), (), 0⟩, ⟨0, 4, (), (), 0⟩] [false, true, false] =
    some (.lengthMismatch 3 4) := rfl

end EnergyProfile
