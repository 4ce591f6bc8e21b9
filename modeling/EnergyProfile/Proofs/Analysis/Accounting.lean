import EnergyProfile.Proofs.Exact
import EnergyProfile.Proofs.Mask.Upsampling
import EnergyProfile.Proofs.Run.Partition
import Mathlib.Data.Bool.Count

/-!
# Every sample is accounted for once

An analysis looks at a trace twice, by runs and by state. Both look at the same samples: the counts
agree in every arithmetic, and the energy of the runs is that of the high samples where sums are
exact. Rounding disturbs the second statement only, as the terms are added in another order.
-/

namespace EnergyProfile

set_option autoImplicit false

@[simp] theorem length_energyChannel {α : Type} [Scalar α] (values : List α) (rate : α) :
    (energyChannel values rate).length = values.length :=
  List.length_map _

namespace Analysis

variable {α : Type}

/-- The analysis of a trace whose mask and runs are known. Nothing can fail any more. -/
def ofRuns [Scalar α] (trace : Trace α) (p : Params α) (s : Segmentation)
    (partition : RunPartition α) : Analysis α :=
  let energy := energyChannel trace.values p.rate
  let runs : List (RunSummary α) := partition.runs.map fun r =>
    .ofSamples r (r.slice energy.toArray) (r.slice partition.early.toArray)
  { sampleCount := trace.length
    highCount := partition.highCount
    decimationFactor := s.decimationFactor
    adjustments := s.adjustments
    runs := runs
    power := ⟨Stat.of (samplesIn true trace.values s.mask),
      Stat.of (samplesIn false trace.values s.mask), Stat.of trace.values⟩
    series := .of runs }

/-- The parts of an analysis count every sample once, and every run once. -/
structure Balanced (a : Analysis α) : Prop where
  all : a.power.all.count = a.sampleCount
  states : a.power.high.count + a.power.low.count = a.sampleCount
  high : a.power.high.count = a.highCount
  runs : (a.runs.map RunSummary.size).sum = a.highCount
  series : a.series.runCount = a.runs.length
  energies : a.series.energy.count = a.runs.length
  durations : a.series.duration.count = a.runs.length
  earlyEnergies : a.series.earlyEnergy.count = a.runs.length

/-- The runs share a list of samples: each sums up its own part, and the parts follow in order. -/
def Shares [Scalar α] (a : Analysis α) (samples : List α) : Prop :=
  ∃ parts : List (List α), parts.flatten = samples ∧
    a.runs.map RunSummary.size = parts.map List.length ∧
    a.runs.map RunSummary.sum = parts.map Scalar.sum

/-- The runs have the energy of the samples that are marked high, which is also what their mean
power makes over their number. -/
structure EnergyAccounted (a : Analysis ℝ) (rate : ℝ) (high : List ℝ) : Prop where
  energy : (a.runs.map RunSummary.sum).sum = 1000 / rate * high.sum
  power : a.power.high.count ≠ 0 → (a.runs.map RunSummary.sum).sum =
    1000 / rate * a.power.high.mean * a.power.high.count

end Analysis

section

variable {α : Type} [Scalar α] {trace : Trace α} {p : Params α} {a : Analysis α}

theorem levelStats_of_ofMask {s : Segmentation} {partition : RunPartition α}
    (h : RunPartition.ofMask trace s.mask p.earlySamples = .ok partition) :
    LevelStats.of trace.values s.mask = .ok (Analysis.ofRuns trace p s partition).power := by
  have hlength := (RunPartition.ofMask_eq_ok_iff.mp h).1
  simp only [LevelStats.of, hlength, Trace.length_values, if_true]
  rfl

theorem summarizeRuns_of_ofMask {s : Segmentation} {partition : RunPartition α}
    (h : RunPartition.ofMask trace s.mask p.earlySamples = .ok partition) :
    summarizeRuns (energyChannel trace.values p.rate) partition.runs partition.early =
      .ok (Analysis.ofRuns trace p s partition).runs := by
  have hfault := RunPartition.runsFault?_ofMask h
  simp only [summarizeRuns, length_energyChannel, Trace.length_values, hfault]
  rfl

/-- Once a trace is divided, its mask, runs and flags fit it, so no later step fails. -/
theorem analyze_eq_ok_iff : analyze trace p = .ok a ↔
    ∃ s partition, segment trace.values p = .ok s ∧
      RunPartition.ofMask trace s.mask p.earlySamples = .ok partition ∧
      a = .ofRuns trace p s partition := by
  simp only [analyze, bind_eq_ok_iff]
  constructor
  · rintro ⟨s, hs, partition, hpartition, power, hpower, runs, hruns, ha⟩
    obtain rfl := Except.ok.inj (hpower.symm.trans (levelStats_of_ofMask hpartition))
    obtain rfl := Except.ok.inj (hruns.symm.trans (summarizeRuns_of_ofMask hpartition))
    exact ⟨s, partition, hs, hpartition, (Except.ok.inj ha).symm⟩
  · rintro ⟨s, partition, hs, hpartition, rfl⟩
    exact ⟨s, hs, partition, hpartition, _, levelStats_of_ofMask hpartition, _,
      summarizeRuns_of_ofMask hpartition, rfl⟩

/-- Valid parameters and a sample are all that an analysis needs. -/
theorem exists_analyze_iff :
    (∃ a, analyze trace p = .ok a) ↔ p.validate = .ok () ∧ trace ≠ [] := by
  constructor
  · rintro ⟨a, ha⟩
    obtain ⟨s, _, hs, _⟩ := analyze_eq_ok_iff.mp ha
    obtain ⟨hvalid, hne, _⟩ := segment_eq_ok_iff.mp hs
    exact ⟨hvalid, fun h => hne (by rw [h]; rfl)⟩
  · rintro ⟨hvalid, hne⟩
    have hvalues : trace.values ≠ [] := by simpa [Trace.values] using hne
    have hlength : (Segmentation.ofValues trace.values p).mask.length = trace.length := by
      rw [Segmentation.mask_ofValues, Mask.length_upsample, Trace.length_values]
    exact ⟨_, analyze_eq_ok_iff.mpr ⟨_, _, segment_eq_ok hvalid hvalues,
      RunPartition.ofMask_eq_ok_iff.mpr ⟨hlength, rfl⟩, rfl⟩⟩

namespace Analysis

variable {s : Segmentation} {partition : RunPartition α}

theorem balanced_ofRuns (h : RunPartition.ofMask trace s.mask p.earlySamples = .ok partition) :
    (ofRuns trace p s partition).Balanced := by
  have hmask : s.mask.length = trace.values.length := by
    rw [(RunPartition.ofMask_eq_ok_iff.mp h).1, Trace.length_values]
  have hcount := List.count_true_add_count_false s.mask
  rw [← length_samplesIn true hmask, ← length_samplesIn false hmask, hmask,
    Trace.length_values] at hcount
  refine ⟨Trace.length_values trace, hcount, ?_, ?_, rfl, ?_, ?_, ?_⟩
  · exact (length_samplesIn true hmask).trans (RunPartition.highCount_of_ofMask h).symm
  · simp only [ofRuns, RunPartition.highCount_eq_sum, List.map_map]
    rfl
  · exact List.length_map _
  · exact List.length_map _
  · exact List.length_map _

theorem shares_ofRuns (h : RunPartition.ofMask trace s.mask p.earlySamples = .ok partition) :
    (ofRuns trace p s partition).Shares
      (samplesIn true (energyChannel trace.values p.rate) s.mask) := by
  have hlength : (energyChannel trace.values p.rate).length = trace.length := by simp
  refine ⟨_, RunPartition.flatten_slices h hlength, ?_, ?_⟩
  · simp only [ofRuns, List.map_map]
    refine List.map_congr_left fun r hr => ?_
    exact (RunPartition.length_slice h hlength hr).symm
  · simp only [ofRuns, List.map_map]
    rfl

end Analysis

end

theorem sum_samplesIn_energyChannel (values : List ℝ) (rate : ℝ) (mask : Mask) :
    (samplesIn true (energyChannel values rate) mask).sum =
      1000 / rate * (samplesIn true values mask).sum := by
  rw [energyChannel, samplesIn_map, List.sum_map_mul_right, List.map_id', mul_comm]
  simp

/-- In exact arithmetic the runs share the sum as well. -/
theorem Analysis.Shares.sum_eq {a : Analysis ℝ} {samples : List ℝ} (h : a.Shares samples) :
    (a.runs.map RunSummary.sum).sum = samples.sum := by
  obtain ⟨parts, rfl, _, hsums⟩ := h
  rw [hsums, List.sum_flatten]
  congr 1
  exact List.map_congr_left fun part _ => Scalar.sum_real part

theorem Analysis.energyAccounted_ofRuns {trace : Trace ℝ} {p : Params ℝ} {s : Segmentation}
    {partition : RunPartition ℝ}
    (h : RunPartition.ofMask trace s.mask p.earlySamples = .ok partition) :
    (ofRuns trace p s partition).EnergyAccounted p.rate (samplesIn true trace.values s.mask) := by
  have henergy := (shares_ofRuns h).sum_eq
  rw [sum_samplesIn_energyChannel] at henergy
  refine ⟨henergy, fun _ => ?_⟩
  rw [henergy, mul_assoc, ← Stat.meanOf_mul_length]
  rfl

/-- Every sample and every run counts once, and the runs share the high samples. In exact arithmetic
their sums then add up to the energy of those samples. -/
theorem analyze_accounts :
    (∀ {α : Type} [Scalar α] (trace : Trace α) (p : Params α) (a : Analysis α),
      analyze trace p = .ok a → a.Balanced ∧ a.sampleCount = trace.length ∧
        ∃ s, segment trace.values p = .ok s ∧
          a.Shares (samplesIn true (energyChannel trace.values p.rate) s.mask)) ∧
    ∀ (trace : Trace ℝ) (p : Params ℝ) (a : Analysis ℝ),
      analyze trace p = .ok a → ∃ s, segment trace.values p = .ok s ∧
        a.EnergyAccounted p.rate (samplesIn true trace.values s.mask) := by
  constructor
  · intro α _ trace p a ha
    obtain ⟨s, partition, hs, hpartition, rfl⟩ := analyze_eq_ok_iff.mp ha
    exact ⟨Analysis.balanced_ofRuns hpartition, rfl, s, hs, Analysis.shares_ofRuns hpartition⟩
  · intro trace p a ha
    obtain ⟨s, partition, hs, hpartition, rfl⟩ := analyze_eq_ok_iff.mp ha
    exact ⟨s, hs, Analysis.energyAccounted_ofRuns hpartition⟩

theorem analyze_accounts_of_two_runs :
    (∃ a, analyze [⟨0, 2⟩, ⟨0.5, 0⟩, ⟨1, 2⟩] (⟨2, 2, 0.5, 1, 0, 0⟩ : Params Float) = .ok a ∧
      a.Balanced ∧ a.sampleCount = 3) ∧
    ∃ a s, analyze [⟨0, 2⟩, ⟨1 / 2, 0⟩, ⟨1, 2⟩] (⟨2, 2, 1 / 2, 1, 0, 0⟩ : Params ℝ) = .ok a ∧
      segment [2, 0, 2] (⟨2, 2, 1 / 2, 1, 0, 0⟩ : Params ℝ) = .ok s ∧
      a.EnergyAccounted 2 (samplesIn true [2, 0, 2] s.mask) := by
  constructor
  · have hvalid : (⟨2, 2, 0.5, 1, 0, 0⟩ : Params Float).validate = .ok () := by rfl
    obtain ⟨a, ha⟩ := exists_analyze_iff.mpr
      ⟨hvalid, show [⟨0, 2⟩, ⟨0.5, 0⟩, (⟨1, 2⟩ : Sample Float)] ≠ [] by simp⟩
    obtain ⟨hbalanced, hsize, _⟩ := analyze_accounts.1 _ _ a ha
    exact ⟨a, ha, hbalanced, hsize⟩
  · have hvalid : (⟨2, 2, 1 / 2, 1, 0, 0⟩ : Params ℝ).validate = .ok () := by
      simp [Params.validate_eq_ok_iff]
    obtain ⟨a, ha⟩ := exists_analyze_iff.mpr
      ⟨hvalid, show [⟨0, 2⟩, ⟨1 / 2, 0⟩, (⟨1, 2⟩ : Sample ℝ)] ≠ [] by simp⟩
    obtain ⟨s, hs, henergy⟩ := analyze_accounts.2 _ _ a ha
    exact ⟨a, s, ha, hs, henergy⟩

end EnergyProfile
