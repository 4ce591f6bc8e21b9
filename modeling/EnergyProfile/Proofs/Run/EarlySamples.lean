import EnergyProfile.Proofs.Run.EarlyWindow
import EnergyProfile.Proofs.Run.Extraction

/-!
# Early samples, flagged and counted

The early window of a run is kept twice, as a count in the run and as flags beside the trace, and
a summary reads the flags alone. The flags on a run are those of its first samples, as many as the
run counts, whatever the window and however close the runs are. So both say the same.
-/

namespace EnergyProfile

set_option autoImplicit false

open Mask

namespace RunPartition

theorem high_earlyFrom_iff (window : Nat) {length position : Nat} {spans : List Span}
    (h : LaidOut length position spans) (j : Nat) :
    (earlyFrom window position spans length).High j ↔
      ∃ s ∈ spans, s.start ≤ position + j ∧ position + j < s.stop ∧
        position + j - s.start < window := by
  induction spans generalizing position j with
  | nil => simp [earlyFrom, high_replicate_iff]
  | cons s rest ih =>
    have hlater : ∀ t ∈ rest, s.stop ≤ t.start := (List.pairwise_cons.mp h.pairwise).1
    obtain ⟨hstart, hlt, hrest⟩ := h
    simp only [earlyFrom, high_append_iff, high_replicate_iff, List.length_replicate, ih hrest,
      List.exists_mem_cons_iff, Span.length]
    constructor
    · rintro (⟨-, hlow⟩ | ⟨hle, ⟨hin, -⟩ | ⟨hle', ⟨-, hlow⟩ | ⟨hle'', t, ht, hstart', hstop', hin⟩⟩⟩)
      · cases hlow
      · exact Or.inl (by omega)
      · cases hlow
      · exact Or.inr ⟨t, ht, by omega, by omega, by omega⟩
    · rintro (⟨hle, hstop, hin⟩ | ⟨t, ht, hstart', hstop', hin⟩)
      · exact Or.inr ⟨by omega, Or.inl ⟨by omega, trivial⟩⟩
      · have := hlater t ht
        exact Or.inr ⟨by omega, Or.inr ⟨by omega, Or.inr
          ⟨by omega, t, ht, by omega, by omega, by omega⟩⟩⟩

variable {α : Type} {mask : Mask} {window : Nat} {partition : RunPartition α}

/-- The runs of a mask and the flags of a trace, both with the same samples early. -/
structure FlagsEarly (p : RunPartition α) (mask : Mask) (window : Nat) : Prop where
  cutInto : mask.CutInto (p.runs.map Run.span)
  length_eq : p.early.length = mask.length
  high_iff : ∀ j, p.early.High j ↔
    ∃ r ∈ p.runs, r.start ≤ j ∧ j < r.stop ∧ j - r.start < window
  earlyCount : ∀ r ∈ p.runs, r.earlyCount = min window r.size

/-- On a run, the flags of other runs are out of sight. -/
theorem FlagsEarly.high_slice_iff (h : partition.FlagsEarly mask window) {r : Run α}
    (hr : r ∈ partition.runs) {i : Nat} (hi : i < r.size) :
    High (r.slice partition.early.toArray) i ↔ i < r.earlyCount := by
  have hstretch := h.cutInto.stretch (List.mem_map_of_mem hr)
  rw [Run.slice_toArray, High, List.getElem?_take_of_lt hi, List.getElem?_drop, h.earlyCount r hr]
  refine (h.high_iff (r.start + i)).trans ?_
  unfold Run.size at hi ⊢
  constructor
  · rintro ⟨t, ht, hstart, hstop, hin⟩
    have hspan : t.span = r.span :=
      (h.cutInto.stretch (List.mem_map_of_mem ht)).eq_of_mem hstretch
        (i := r.start + i) ⟨hstart, hstop⟩ ⟨by simp [Run.span], by simp only [Run.span]; omega⟩
    have hsame : t.start = r.start := congrArg Span.start hspan
    omega
  · intro hin
    exact ⟨r, hr, by omega, by omega, by omega⟩

variable [Scalar α] {trace : Trace α}

theorem flagsEarly_of_ofMask (h : ofMask trace mask window = .ok partition) :
    partition.FlagsEarly mask window := by
  obtain ⟨hlength, rfl⟩ := ofMask_eq_ok_iff.mp h
  have hlaid := mask.laidOut_spans
  constructor
  · exact ((runsOf_iff hlength).mpr rfl).cutInto
  · exact length_earlyFrom window hlaid
  · intro j
    have hhigh := high_earlyFrom_iff window hlaid j
    simp only [Nat.zero_add] at hhigh
    simp only [hhigh, List.mem_map, exists_exists_and_eq_and]
    rfl
  · exact List.forall_mem_map.mpr fun s _ => rfl

end RunPartition

theorem samplesIn_true_eq_take {β : Type} {values : List β} {flags : Mask} {count : Nat}
    (hlength : flags.length = values.length)
    (hflags : ∀ i < values.length, flags.High i ↔ i < count) :
    samplesIn true values flags = values.take count := by
  induction values generalizing flags count with
  | nil => simp [samplesIn]
  | cons x values ih =>
    cases flags with
    | nil => cases hlength
    | cons flag flags =>
      have hfirst : flag = true ↔ 0 < count := by
        simpa [High] using hflags 0 (Nat.zero_lt_succ _)
      have hrest (i : Nat) (hi : i < values.length) : High flags i ↔ i < count - 1 := by
        have hnext := hflags (i + 1) (Nat.succ_lt_succ hi)
        rw [Nat.lt_sub_iff_add_lt]
        simpa [High] using hnext
      rw [samplesIn_cons, ih (Nat.succ.inj hlength) hrest]
      cases count with
      | zero => rw [if_neg (by simpa using hfirst), Nat.zero_sub, List.take_zero, List.take_zero]
      | succ count => rw [if_pos (hfirst.mpr (Nat.zero_lt_succ count)), List.take_succ_cons,
          Nat.add_sub_cancel]

/-- The first samples of a run, as many as it counts as early. -/
def Run.firstSamples {α β : Type} (r : Run α) (values : List β) : List β :=
  (values.drop r.start).take r.earlyCount

/-- The early part of a summary is about the first samples of the run. -/
structure Run.EarlySummary {α : Type} [Scalar α] (r : Run α) (values : List α)
    (s : RunSummary α) : Prop where
  earlyCount : s.earlyCount = r.earlyCount
  earlySum : s.earlySum = Scalar.sum (r.firstSamples values)
  earlySpread : s.earlySpread =
    if r.earlyCount < 2 then Scalar.ofNat 0 else (Stat.of (r.firstSamples values)).spread

namespace RunPartition

variable {α : Type} [Scalar α] {trace : Trace α} {mask : Mask} {window : Nat}
  {partition : RunPartition α}

theorem earlyOf_eq_firstSamples (h : ofMask trace mask window = .ok partition) {β : Type}
    {values : List β} (hvalues : values.length = trace.length) {r : Run α}
    (hr : r ∈ partition.runs) :
    r.earlyOf values partition.early = r.firstSamples values ∧
      (r.firstSamples values).length = r.earlyCount := by
  have hflags := flagsEarly_of_ofMask h
  have hearly : partition.early.length = trace.length :=
    hflags.length_eq.trans (ofMask_eq_ok_iff.mp h).1
  have hcount : r.earlyCount ≤ r.size := by
    rw [hflags.earlyCount r hr]
    exact Nat.min_le_right _ _
  have hsize := length_slice h hvalues hr
  constructor
  · have hslices := samplesIn_true_eq_take ((length_slice h hearly hr).trans hsize.symm)
      fun i hi => hflags.high_slice_iff hr (hi.trans_eq hsize)
    rw [Run.earlyOf, hslices, Run.slice_toArray, List.take_take, Nat.min_eq_left hcount]
    rfl
  · have hstop := (mem_runs h hr).2
    unfold Run.size at hcount
    rw [Run.firstSamples, List.length_take, List.length_drop]
    omega

theorem earlySummary_ofSamples (h : ofMask trace mask window = .ok partition) {values : List α}
    (hvalues : values.length = trace.length) {r : Run α} (hr : r ∈ partition.runs) :
    r.EarlySummary values
      (.ofSamples r (r.slice values.toArray) (r.slice partition.early.toArray)) := by
  obtain ⟨hearly, hlength⟩ := earlyOf_eq_firstSamples h hvalues hr
  constructor
  · exact (congrArg List.length hearly).trans hlength
  · exact congrArg Scalar.sum hearly
  · refine (congrArg RunSummary.earlySpreadOf hearly).trans ?_
    rw [RunSummary.earlySpreadOf, hlength]

/-- The flags of a trace are set at the samples of a run that its early window reaches, and the run
counts them. A summary of any channel over the runs counts them as well, and its early sum and
spread are those of the first samples of the run. -/
theorem earlySamples_agree (trace : Trace α) (mask : Mask) (milliseconds rate : α)
    (hlength : mask.length = trace.length) :
    ∃ partition, ofMask trace mask (earlySamples milliseconds rate) = .ok partition ∧
      partition.FlagsEarly mask (earlySamples milliseconds rate) ∧
      ∀ values : List α, values.length = trace.length →
        ∃ summaries, summarizeRuns values partition.runs partition.early = .ok summaries ∧
          List.Forall₂ (fun r s => r.EarlySummary values s) partition.runs summaries := by
  obtain ⟨partition, h, -⟩ := ofMask_eq_ok (earlySamples milliseconds rate) hlength
  refine ⟨partition, h, flagsEarly_of_ofMask h, fun values hvalues => ?_⟩
  have hfault := runsFault?_ofMask h
  refine ⟨partition.runs.map fun r =>
    .ofSamples r (r.slice values.toArray) (r.slice partition.early.toArray), ?_, ?_⟩
  · simp only [summarizeRuns, hvalues, hfault]
  · rw [List.forall₂_map_right_iff, List.forall₂_same]
    intro r hr
    exact earlySummary_ofSamples h hvalues hr

/-- Two runs with one sample between them, the first of them shorter than the early window. -/
theorem earlySamples_agree_of_two_runs :
    ([true, false, true, true, true] : Mask).length = quarterSecondTrace.length ∧
      ([8, 6, 4, 2, 1] : List Float).length = quarterSecondTrace.length ∧
      ∃ partition summaries,
        ofMask quarterSecondTrace [true, false, true, true, true] 2 = .ok partition ∧
        partition.FlagsEarly [true, false, true, true, true] 2 ∧
        summarizeRuns [8, 6, 4, 2, 1] partition.runs partition.early = .ok summaries ∧
        List.Forall₂ (fun r s => r.EarlySummary [8, 6, 4, 2, 1] s) partition.runs summaries := by
  have hlength : ([true, false, true, true, true] : Mask).length = quarterSecondTrace.length := rfl
  have hvalues : ([8, 6, 4, 2, 1] : List Float).length = quarterSecondTrace.length := rfl
  have hwindow : earlySamples (500 : Float) 4 = 2 := by decide +kernel
  obtain ⟨partition, hpartition, hflags, hsummaries⟩ :=
    earlySamples_agree quarterSecondTrace _ 500 4 hlength
  obtain ⟨summaries, hsummarized, hearly⟩ := hsummaries _ hvalues
  rw [hwindow] at hpartition hflags
  exact ⟨hlength, hvalues, partition, summaries, hpartition, hflags, hsummarized, hearly⟩

end RunPartition

end EnergyProfile
