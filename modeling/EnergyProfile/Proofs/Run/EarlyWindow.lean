import EnergyProfile.Proofs.Analysis.Accounting
import EnergyProfile.Proofs.Statistics.Lost

/-!
# When early statistics are numbers

The sum and the spread of the early samples of a run are zero where too few samples are flagged. That
is not enough to make them numbers: infinite samples lose them, and the spread is lost as well when
finite samples are so far apart that a deviation overflows. In a run of ordinary samples they are
numbers, and only the spread of the whole run is none, if the run has a single sample.
-/

namespace EnergyProfile

set_option autoImplicit false

open Double

/-- The samples of a channel that a run covers and that are flagged. -/
def Run.earlyOf {α β : Type} (r : Run α) (values : List β) (flags : Mask) : List β :=
  samplesIn true (r.slice values.toArray) (r.slice flags.toArray)

theorem length_samplesIn_le {β : Type} (state : Bool) (values : List β) (mask : Mask) :
    (samplesIn state values mask).length ≤ values.length :=
  calc (samplesIn state values mask).length
      ≤ (values.zip mask).length := List.length_filterMap_le _ _
    _ ≤ values.length := by
      rw [List.length_zip]
      exact Nat.min_le_left _ _

theorem Run.length_slice_le {α β : Type} (r : Run α) (xs : List β) :
    (r.slice xs.toArray).length ≤ xs.length := by
  rw [Run.slice_toArray, List.length_take, List.length_drop]
  omega

theorem Stat.spread_isNaN_iff {xs : List Float} (hsize : xs.length ≤ maxSize) :
    (Stat.of xs).spread.isNaN ↔ xs.length < 2 ∨ SpreadLost (xs.map (· - meanOf xs)) := by
  change (spreadOf (xs.map (· - meanOf xs))).isNaN ↔ _
  rw [isNaN_iff]
  by_cases hfew : xs.length < 2
  · refine iff_of_true ?_ (.inl hfew)
    obtain _ | ⟨x, _ | ⟨y, rest⟩⟩ := xs
    · decide +kernel
    · change ofFloat Scalar.undefined = nan
      decide +kernel
    · simp at hfew
  · have htwo : 2 ≤ (xs.map (· - meanOf xs)).length := by
      rw [List.length_map]
      exact Nat.not_lt.mp hfew
    rw [spreadOf_eq_nan_iff htwo (by simpa using hsize), or_iff_right hfew]

/-- Which statistics of a run with given samples and early samples are numbers. -/
structure RunSummary.Numbers (s : RunSummary Float) (samples early : List Float) : Prop where
  earlyCount : s.earlyCount = early.length
  sum_of_none : early = [] → Scalar.equal s.earlySum (Scalar.ofNat 0)
  spread_of_few : early.length < 2 → s.earlySpread = Scalar.ofNat 0
  sum_isNaN : s.earlySum.isNaN ↔ SumLost early
  spread_isNaN : s.earlySpread.isNaN ↔
    2 ≤ early.length ∧ SpreadLost (early.map (· - Stat.meanOf early))
  sum_of_finite : (∀ x ∈ early, x.isFinite) → ¬ s.earlySum.isNaN
  spread_of_ordinary : (∀ x ∈ early, Ordinary x) → ¬ s.earlySpread.isNaN
  spread_of_infinite : 2 ≤ early.length → (∃ x ∈ early, ¬ x.isFinite) → s.earlySpread.isNaN
  whole_isNaN : s.spread.isNaN ↔
    samples.length < 2 ∨ SpreadLost (samples.map (· - Stat.meanOf samples))

theorem RunSummary.earlySpreadOf_isNaN_iff {early : List Float} (hsize : early.length ≤ maxSize) :
    (earlySpreadOf early).isNaN ↔
      2 ≤ early.length ∧ SpreadLost (early.map (· - Stat.meanOf early)) := by
  unfold earlySpreadOf
  split
  · rename_i hfew
    exact iff_of_false (by decide +kernel) fun h => absurd h.1 (Nat.not_le.mpr hfew)
  · rename_i hmany
    rw [Stat.spread_isNaN_iff hsize, or_iff_right hmany, and_iff_right (Nat.not_lt.mp hmany)]

theorem RunSummary.numbers_ofSamples (run : Run Float) {samples : List Float} (flags : Mask)
    (hsize : samples.length ≤ maxSize) :
    (ofSamples run samples flags).Numbers samples (samplesIn true samples flags) := by
  have hearly : (samplesIn true samples flags).length ≤ maxSize :=
    (length_samplesIn_le _ _ _).trans hsize
  have hsum : (ofSamples run samples flags).earlySum.isNaN ↔
      SumLost (samplesIn true samples flags) := by
    rw [isNaN_iff, ← sum_eq_nan_iff]
    rfl
  have hspread : (ofSamples run samples flags).earlySpread.isNaN ↔
      2 ≤ (samplesIn true samples flags).length ∧ SpreadLost
        ((samplesIn true samples flags).map (· - Stat.meanOf (samplesIn true samples flags))) :=
    earlySpreadOf_isNaN_iff hearly
  constructor
  · rfl
  · intro hnone
    change Scalar.equal (Scalar.sum (samplesIn true samples flags)) _
    rw [hnone]
    decide +kernel
  · intro hfew
    exact if_pos hfew
  · exact hsum
  · exact hspread
  · intro hfinite
    rw [hsum]
    exact not_sumLost_of_finite hfinite
  · intro hordinary
    rw [hspread]
    exact fun hlost => not_spreadLost_of_ordinary hordinary hearly hlost.2
  · rintro htwo ⟨x, hx, hinfinite⟩
    have hmean := Stat.meanOf_not_isFinite hearly ⟨x, hx, eq_false_of_ne_true hinfinite⟩
    exact hspread.mpr ⟨htwo, spreadLost_of_not_isFinite htwo hmean⟩
  · exact Stat.spread_isNaN_iff hsize

/-- The summaries of runs over a channel, each with the samples it is about. -/
def EarlyNumbers (values : List Float) (flags : Mask) (runs : List (Run Float))
    (summaries : List (RunSummary Float)) : Prop :=
  List.Forall₂ (fun r s => s.Numbers (r.slice values.toArray) (r.earlyOf values flags)) runs summaries

theorem earlyNumbers_map {values : List Float} (hsize : values.length ≤ maxSize) (flags : Mask)
    (runs : List (Run Float)) : EarlyNumbers values flags runs
      (runs.map fun r => .ofSamples r (r.slice values.toArray) (r.slice flags.toArray)) := by
  rw [EarlyNumbers, List.forall₂_map_right_iff, List.forall₂_same]
  intro r _
  exact RunSummary.numbers_ofSamples r _ ((r.length_slice_le values).trans hsize)

/-- The early statistics of a run are numbers in exactly these cases, for any runs and flags that the
values accept and for the energy of those of an analysis. The values are no more than a size can
count. -/
theorem summarized_earlyNumbers {values : List Float} (hsize : values.length ≤ maxSize) :
    (∀ runs flags summaries, summarizeRuns values runs flags = .ok summaries →
      EarlyNumbers values flags runs summaries) ∧
    ∀ (trace : Trace Float) (p : Params Float) (a : Analysis Float), trace.values = values →
      analyze trace p = .ok a → ∃ s partition, segment values p = .ok s ∧
        RunPartition.ofMask trace s.mask p.earlySamples = .ok partition ∧
        EarlyNumbers (energyChannel values p.rate) partition.early partition.runs a.runs := by
  constructor
  · intro runs flags summaries hsummaries
    unfold summarizeRuns at hsummaries
    split at hsummaries
    · cases hsummaries
    · obtain rfl := Except.ok.inj hsummaries
      exact earlyNumbers_map hsize flags runs
  · intro trace p a hvalues ha
    obtain ⟨s, partition, hs, hpartition, rfl⟩ := analyze_eq_ok_iff.mp ha
    rw [hvalues] at hs
    have henergy : (energyChannel values p.rate).length ≤ maxSize := by rwa [length_energyChannel]
    have hnumbers := earlyNumbers_map henergy partition.early partition.runs
    subst hvalues
    exact ⟨s, partition, hs, hpartition, hnumbers⟩

def quarterRun : Run Float := ⟨0, 2, 0, 0.25, 2⟩

def quarterParams : Params Float := ⟨4, 4, 0, 0.5, 0, 1000⟩

theorem summarized_earlyNumbers_of_pair :
    ([1, 2] : List Float).length ≤ maxSize ∧
    (∃ s, summarizeRuns [1, 2] [quarterRun] [true, true] = .ok [s] ∧ ¬ s.earlySum.isNaN ∧
      ¬ s.earlySpread.isNaN) ∧
    ∃ a s partition, analyze [⟨0, 1⟩, ⟨0.25, 2⟩] quarterParams = .ok a ∧
      segment [1, 2] quarterParams = .ok s ∧
      RunPartition.ofMask [⟨0, 1⟩, ⟨0.25, 2⟩] s.mask quarterParams.earlySamples = .ok partition ∧
      EarlyNumbers (energyChannel [1, 2] 4) partition.early partition.runs a.runs := by
  have hsize : ([1, 2] : List Float).length ≤ maxSize := by decide
  obtain ⟨hsummarized, hanalyzed⟩ := summarized_earlyNumbers hsize
  refine ⟨hsize, ?_, ?_⟩
  · have hsummaries : summarizeRuns [1, 2] [quarterRun] [true, true] =
        .ok [.ofSamples quarterRun [1, 2] [true, true]] := rfl
    obtain ⟨hnumbers, -⟩ := List.forall₂_cons.mp (hsummarized _ _ _ hsummaries)
    have hordinary : ∀ x ∈ quarterRun.earlyOf [1, 2] [true, true], Ordinary x := by
      change ∀ x ∈ [Float.ofNat 1, Float.ofNat 2], Ordinary x
      intro x hx
      rcases List.mem_pair.mp hx with rfl | rfl
      · exact ordinary_ofNat (by decide)
      · exact ordinary_ofNat (by decide)
    exact ⟨_, hsummaries, hnumbers.sum_of_finite fun x hx => (hordinary x hx).1,
      hnumbers.spread_of_ordinary hordinary⟩
  · have hvalid : quarterParams.validate = .ok () := by rfl
    obtain ⟨a, ha⟩ := exists_analyze_iff.mpr
      ⟨hvalid, show [⟨0, 1⟩, (⟨0.25, 2⟩ : Sample Float)] ≠ [] by simp⟩
    obtain ⟨s, partition, hs, hpartition, hnumbers⟩ := hanalyzed _ _ a rfl ha
    exact ⟨a, s, partition, ha, hs, hpartition, hnumbers⟩

/-- An infinite sample in the early window of an analyzed trace leaves no spread there. Finite samples
at both ends of the range do so as well, and a sample that is no number leaves no sum. -/
theorem isNaN_earlySpread_at_infinity :
    (∃ a, analyze [⟨0, 1⟩, ⟨0.25, 1 / 0⟩] quarterParams = .ok a ∧
      ∃ s ∈ a.runs, s.earlyCount = 2 ∧ s.earlySpread.isNaN) ∧
    (∃ s, summarizeRuns [1.7e308, -1.7e308] [quarterRun] [true, true] = .ok [s] ∧
      s.earlySpread.isNaN) ∧
    ∃ s, summarizeRuns [0 / 0, 1] [quarterRun] [true, false] = .ok [s] ∧ s.earlySum.isNaN := by
  refine ⟨?_, ⟨_, rfl, by decide +kernel⟩, _, rfl, by decide +kernel⟩
  have hvalid : quarterParams.validate = .ok () := by rfl
  obtain ⟨a, ha⟩ := exists_analyze_iff.mpr
    ⟨hvalid, show [⟨0, 1⟩, (⟨0.25, 1 / 0⟩ : Sample Float)] ≠ [] by simp⟩
  have hlost : (analyze [⟨0, 1⟩, ⟨0.25, 1 / 0⟩] quarterParams).toOption.any (fun a =>
      a.runs.any fun s => s.earlyCount == 2 && s.earlySpread.isNaN) := by
    decide +kernel
  rw [ha] at hlost
  refine ⟨a, ha, ?_⟩
  simpa [Except.toOption] using hlost

end EnergyProfile
