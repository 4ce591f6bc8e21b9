import EnergyProfile.Proofs.Analysis.Accounting
import EnergyProfile.Proofs.Mask.Inclusion

/-!
# The parts of an analysis

An analysis is made of a division of the trace and of the runs of its mask. Two analyses of a trace
are compared part by part: where one mask includes another, so do the runs and the high samples.
-/

namespace EnergyProfile

set_option autoImplicit false

/-- The division of a trace, its runs and its analysis, all of which exist. -/
structure Analyzed {α : Type} [Scalar α] (trace : Trace α) (p : Params α) (s : Segmentation)
    (partition : RunPartition α) (a : Analysis α) : Prop where
  segmented : segment trace.values p = .ok s
  partitioned : RunPartition.ofMask trace s.mask p.earlySamples = .ok partition
  analyzed : analyze trace p = .ok a

/-- Every run of a partition lies inside a run of another one. -/
def RunPartition.Inside {α : Type} (a b : RunPartition α) : Prop :=
  ∀ r ∈ a.runs, ∃ t ∈ b.runs, t.start ≤ r.start ∧ r.stop ≤ t.stop

section

variable {α : Type} [Scalar α] {trace : Trace α} {p : Params α}

theorem exists_analyzed (hvalid : p.validate = .ok ()) (hne : trace ≠ []) :
    ∃ partition a, Analyzed trace p (.ofValues trace.values p) partition a := by
  obtain ⟨a, ha⟩ := exists_analyze_iff.mpr ⟨hvalid, hne⟩
  obtain ⟨s, partition, hs, hpartition, -⟩ := analyze_eq_ok_iff.mp ha
  obtain ⟨-, -, rfl⟩ := segment_eq_ok_iff.mp hs
  exact ⟨partition, a, hs, hpartition, ha⟩

theorem Analyzed.highCount_eq {s : Segmentation} {partition : RunPartition α} {a : Analysis α}
    (h : Analyzed trace p s partition a) : a.highCount = s.mask.highCount := by
  obtain ⟨s', partition', hs, hpartition, rfl⟩ := analyze_eq_ok_iff.mp h.analyzed
  obtain rfl := Except.ok.inj (hs.symm.trans h.segmented)
  exact RunPartition.highCount_of_ofMask hpartition

theorem Analyzed.length_runs {s : Segmentation} {partition : RunPartition α} {a : Analysis α}
    (h : Analyzed trace p s partition a) : partition.runs.length = s.mask.spans.length := by
  obtain ⟨-, rfl⟩ := RunPartition.ofMask_eq_ok_iff.mp h.partitioned
  exact List.length_map _

/-- Runs of a mask lie inside the runs of a mask that includes it. -/
theorem Mask.Within.inside {m m' : Mask} (h : m.Within m') {window window' : Nat}
    {partition partition' : RunPartition α}
    (hpartition : RunPartition.ofMask trace m window = .ok partition)
    (hpartition' : RunPartition.ofMask trace m' window' = .ok partition') :
    partition.Inside partition' := by
  obtain ⟨-, rfl⟩ := RunPartition.ofMask_eq_ok_iff.mp hpartition
  obtain ⟨-, rfl⟩ := RunPartition.ofMask_eq_ok_iff.mp hpartition'
  intro r hr
  obtain ⟨s, hs, rfl⟩ := List.mem_map.mp hr
  obtain ⟨t, ht, hstart, hstop⟩ := h.exists_stretch ((mem_spans_iff m s).mp hs)
  exact ⟨_, List.mem_map_of_mem ((mem_spans_iff m' t).mpr ht), hstart, hstop⟩

end

end EnergyProfile
