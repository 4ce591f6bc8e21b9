import EnergyProfile.Proofs.Analysis.Parts
import EnergyProfile.Proofs.Double.Order

/-!
# Raising the threshold

A signal is thresholded after it has been smoothed, so two thresholds look at the same numbers and
the higher one marks no sample that the lower one does not. Closing and upsampling keep this, though
a higher threshold may open gaps and so divide a run. Samples that are no numbers are never high.
-/

namespace EnergyProfile

set_option autoImplicit false

/-- A division at a higher threshold marks no sample that one at a lower threshold does not. -/
theorem Segmentation.within_of_le_threshold (values : List Float) {p : Params Float}
    {limit : Float} (hfinite : p.threshold.isFinite) (hfinite' : limit.isFinite)
    (hle : p.threshold ≤ limit) :
    (ofValues values { p with threshold := limit }).mask.Within (ofValues values p).mask := by
  have hopen : (thresholded values { p with threshold := limit }).Within (thresholded values p) :=
    Mask.threshold_within _ fun x hx =>
      decide_eq_true (Double.lt_of_le_of_lt hfinite hfinite' hle (of_decide_eq_true hx))
  have hlength : (thresholded values { p with threshold := limit }).length =
      (thresholded values p).length := by
    rw [length_thresholded, length_thresholded]
    rfl
  rw [mask_ofValues, mask_ofValues]
  exact (hopen.closeGaps hlength _).upsample (by simpa using hlength) _ _

/-- Raising the threshold never adds a high sample, and every run found at the higher threshold lies
inside a run found at the lower one. -/
theorem analyze_of_le_threshold {trace : Trace Float} {p : Params Float} {limit : Float}
    (hvalid : p.validate = .ok ()) (hvalid' : { p with threshold := limit }.validate = .ok ())
    (hne : trace ≠ []) (hle : p.threshold ≤ limit) :
    ∃ s partition a s' partition' a', Analyzed trace p s partition a ∧
      Analyzed trace { p with threshold := limit } s' partition' a' ∧
      s'.mask.Within s.mask ∧ a'.highCount ≤ a.highCount ∧ partition'.Inside partition := by
  obtain ⟨partition, a, h⟩ := exists_analyzed hvalid hne
  obtain ⟨partition', a', h'⟩ := exists_analyzed hvalid' hne
  have hfinite := ((p.validate_eq_ok_iff).mp hvalid).2.2.2.2.2
  have hfinite' := ((Params.validate_eq_ok_iff _).mp hvalid').2.2.2.2.2
  have hwithin := Segmentation.within_of_le_threshold trace.values hfinite hfinite' hle
  refine ⟨_, partition, a, _, partition', a', h, h', hwithin, ?_,
    hwithin.inside h'.partitioned h.partitioned⟩
  rw [h.highCount_eq, h'.highCount_eq]
  exact hwithin.highCount_le

def risingTrace : Trace Float := [⟨0, 1⟩, ⟨0.25, 3⟩, ⟨0.5, 1⟩, ⟨0.75, 3⟩, ⟨1, 0 / 0⟩]

def lowThreshold : Params Float := ⟨4, 4, 0, 0.5, 0, 10⟩

/-- At 0.5 all four numbers make one run, at 2 there are two runs in it. -/
theorem analyze_of_le_threshold_of_rising :
    lowThreshold.validate = .ok () ∧ { lowThreshold with threshold := 2 }.validate = .ok () ∧
      risingTrace ≠ [] ∧ lowThreshold.threshold ≤ 2 ∧
      ∃ s partition a s' partition' a', Analyzed risingTrace lowThreshold s partition a ∧
        Analyzed risingTrace { lowThreshold with threshold := 2 } s' partition' a' ∧
        s'.mask.Within s.mask ∧ a'.highCount ≤ a.highCount ∧ partition'.Inside partition := by
  have hvalid : lowThreshold.validate = .ok () := by rfl
  have hvalid' : { lowThreshold with threshold := 2 }.validate = .ok () := by rfl
  have hne : risingTrace ≠ [] := by simp [risingTrace]
  have hle : lowThreshold.threshold ≤ 2 := by decide +kernel
  exact ⟨hvalid, hvalid', hne, hle, analyze_of_le_threshold hvalid hvalid' hne hle⟩

end EnergyProfile
