import EnergyProfile.Proofs.Analysis.Parts
import EnergyProfile.Proofs.Double.Order

/-!
# Closing longer gaps

A longer shortest gap gives a longer closing window as long as its product with the target rate is
finite: rounding and the limit of a size keep the order. The mask then includes the one of the
shorter gap, and runs are only joined. A product beyond the range of doubles counts as one sample
instead, and no gap is closed at all.
-/

namespace EnergyProfile

set_option autoImplicit false

open Double

/-- Windows keep the order of the durations up to the largest finite product with the rate. -/
theorem Mask.closingWindow_mono {seconds seconds' rate : Float} (hfinite : seconds.isFinite)
    (hfinite' : seconds'.isFinite) (hrate : rate.isFinite)
    (hseconds : ¬ Scalar.less seconds (Scalar.ofNat 0))
    (hpos : Scalar.less (Scalar.ofNat 0) rate) (hle : seconds ≤ seconds')
    (hproduct : (seconds' * rate).isFinite) :
    closingWindow seconds rate ≤ closingWindow seconds' rate := by
  have hle := toReal_le_of_le hfinite hfinite' hle
  have hnonneg := (not_less_zero_iff hfinite).mp hseconds
  have hpos := (zero_less_iff hrate).mp hpos
  obtain ⟨hiff, hvalue⟩ := mul_of_nonneg hfinite hrate hnonneg hpos.le
  obtain ⟨hiff', hvalue'⟩ := mul_of_nonneg hfinite' hrate (hnonneg.trans hle) hpos.le
  have hrounded : rounded ((ofFloat seconds).toReal * (ofFloat rate).toReal) ≤
      rounded ((ofFloat seconds').toReal * (ofFloat rate).toReal) :=
    rounded_mono (by positivity) (by gcongr)
  have hshort : (seconds * rate).isFinite := hiff.mpr (hrounded.trans_lt (hiff'.mp hproduct))
  have hround := round?_of_nonneg hshort (by rw [hvalue hshort]; exact rounded_nonneg (by positivity))
  have hround' := round?_of_nonneg hproduct (by
    rw [hvalue' hproduct]
    exact (rounded_nonneg (by positivity)).trans hrounded)
  rw [hvalue hshort] at hround
  rw [hvalue' hproduct] at hround'
  rw [closingWindow_eq_max, closingWindow_eq_max]
  change max 1 (clampSize ((ofFloat (seconds * rate)).round?.getD 0)) ≤
    max 1 (clampSize ((ofFloat (seconds' * rate)).round?.getD 0))
  rw [hround, hround', Option.getD_some, Option.getD_some]
  exact max_le_max_left 1 (clampSize_mono (Int.floor_le_floor (by gcongr)))

theorem Mask.closingWindow_of_not_isFinite {seconds rate : Float}
    (hproduct : ¬ (seconds * rate).isFinite) : closingWindow seconds rate = 1 := by
  have hnone : (ofFloat (seconds * rate)).round? = none := by
    rcases not_isFinite_iff.mp (by simpa using hproduct) with h | ⟨negative, h⟩ <;> rw [h] <;> rfl
  rw [closingWindow_eq_max]
  change max 1 (clampSize ((ofFloat (seconds * rate)).round?.getD 0)) = 1
  rw [hnone]
  rfl

/-- A division with more of the gaps closed: no high sample is dropped, and no run is split. -/
structure ClosesMore {α : Type} (s s' : Segmentation) (partition partition' : RunPartition α) :
    Prop where
  within : s.mask.Within s'.mask
  runs : partition'.runs.length ≤ partition.runs.length

section

variable {α : Type} [Scalar α] {trace : Trace α} {p : Params α}

theorem Segmentation.within_of_gapWindow_le {values : List α} {p p' : Params α}
    (hopen : thresholded values p = thresholded values p') (hfactor : p.factor = p'.factor)
    (hle : p.gapWindow ≤ p'.gapWindow) :
    (ofValues values p).mask.Within (ofValues values p').mask := by
  rw [mask_ofValues, mask_ofValues, hopen, hfactor]
  exact (Mask.closeGaps_within _ hle).upsample (by simp) _ _

/-- A longer window only joins runs, since each run begins with a sample that was high before any
gap was closed. -/
theorem closesMore_of_gapWindow_le {gap : α} {partition partition' : RunPartition α}
    {a a' : Analysis α} (h : Analyzed trace p (.ofValues trace.values p) partition a)
    (h' : Analyzed trace { p with shortestGap := gap }
      (.ofValues trace.values { p with shortestGap := gap }) partition' a')
    (hle : p.gapWindow ≤ { p with shortestGap := gap }.gapWindow) :
    ClosesMore (.ofValues trace.values p)
      (.ofValues trace.values { p with shortestGap := gap }) partition partition' := by
  have hwithin : (Segmentation.ofValues trace.values p).mask.Within
      (Segmentation.ofValues trace.values { p with shortestGap := gap }).mask :=
    Segmentation.within_of_gapWindow_le rfl rfl hle
  refine ⟨hwithin, ?_⟩
  rw [h.length_runs, h'.length_runs]
  refine hwithin.length_spans_le fun t ht => ⟨t.start, Nat.le_refl _, ht.nonempty, ?_⟩
  rw [Segmentation.mask_ofValues] at ht ⊢
  have hopen := ht.high_start_of_closeGaps { p with shortestGap := gap }.factor_pos
    (Segmentation.length_le_blocks trace.values _)
  exact (Mask.within_closeGaps _ p.gapWindow).upsample (by simp) _ _ _ hopen

end

/-- A longer shortest gap closes more if, and unless it changes nothing only if, its product with the
target rate is finite. If the product is not, the window is one sample and every gap stays open. -/
theorem closesMore_iff {trace : Trace Float} {p : Params Float} {gap : Float}
    (hvalid : p.validate = .ok ()) (hvalid' : { p with shortestGap := gap }.validate = .ok ())
    (hne : trace ≠ []) (hle : p.shortestGap ≤ gap) :
    ∃ s partition a s' partition' a', Analyzed trace p s partition a ∧
      Analyzed trace { p with shortestGap := gap } s' partition' a' ∧
      (ClosesMore s s' partition partition' ↔
        (gap * p.targetRate).isFinite ∨ s'.mask = s.mask) ∧
      (¬ (gap * p.targetRate).isFinite → s'.closingWindow = 1 ∧ s'.mask.Within s.mask) := by
  obtain ⟨partition, a, h⟩ := exists_analyzed hvalid hne
  obtain ⟨partition', a', h'⟩ := exists_analyzed hvalid' hne
  refine ⟨_, partition, a, _, partition', a', h, h', ?_⟩
  obtain ⟨-, ⟨hrate, hpos⟩, -, ⟨hgap, hnonneg⟩, -⟩ := p.validate_eq_ok_iff.mp hvalid
  obtain ⟨-, -, -, ⟨hgap', -⟩, -⟩ := (Params.validate_eq_ok_iff _).mp hvalid'
  have hgrows (hproduct : (gap * p.targetRate).isFinite) :
      p.gapWindow ≤ { p with shortestGap := gap }.gapWindow :=
    Mask.closingWindow_mono hgap hgap' hrate hnonneg hpos hle hproduct
  have hone (hproduct : ¬ (gap * p.targetRate).isFinite) :
      { p with shortestGap := gap }.gapWindow = 1 := Mask.closingWindow_of_not_isFinite hproduct
  have hwithin (hproduct : ¬ (gap * p.targetRate).isFinite) :
      (Segmentation.ofValues trace.values { p with shortestGap := gap }).mask.Within
        (Segmentation.ofValues trace.values p).mask :=
    Segmentation.within_of_gapWindow_le rfl rfl ((hone hproduct).trans_le p.gapWindow_pos)
  refine ⟨⟨fun hmore => ?_, ?_⟩, fun hproduct => ⟨hone hproduct, hwithin hproduct⟩⟩
  · by_cases hproduct : (gap * p.targetRate).isFinite
    · exact Or.inl hproduct
    · refine Or.inr ((hwithin hproduct).eq ?_ hmore.within)
      simp [Segmentation.mask_ofValues]
  · rintro (hproduct | heq)
    · exact closesMore_of_gapWindow_le h h' (hgrows hproduct)
    · refine ⟨?_, ?_⟩
      · rw [heq]
        exact Mask.Within.refl _
      · rw [h.length_runs, h'.length_runs, heq]

def gapTrace : Trace Float := [⟨0, 1⟩, ⟨0.25, 0⟩, ⟨0.5, 0⟩, ⟨0.75, 0⟩, ⟨1, 1⟩]

def secondGap : Params Float := ⟨4, 4, 0, 0.5, 1, 0⟩

theorem closesMore_iff_of_gapTrace :
    secondGap.validate = .ok () ∧ { secondGap with shortestGap := 2 }.validate = .ok () ∧
      gapTrace ≠ [] ∧ secondGap.shortestGap ≤ 2 ∧
      ∃ s partition a s' partition' a', Analyzed gapTrace secondGap s partition a ∧
        Analyzed gapTrace { secondGap with shortestGap := 2 } s' partition' a' ∧
        (ClosesMore s s' partition partition' ↔
          (2 * secondGap.targetRate).isFinite ∨ s'.mask = s.mask) ∧
        (¬ (2 * secondGap.targetRate).isFinite → s'.closingWindow = 1 ∧ s'.mask.Within s.mask) := by
  have hvalid : secondGap.validate = .ok () := by rfl
  have hvalid' : { secondGap with shortestGap := 2 }.validate = .ok () := by rfl
  have hne : gapTrace ≠ [] := by simp [gapTrace]
  have hle : secondGap.shortestGap ≤ 2 := by decide +kernel
  exact ⟨hvalid, hvalid', hne, hle, closesMore_iff hvalid hvalid' hne hle⟩

/-- Three samples at four a second are closed when gaps of less than a second are, but they stay open
when gaps of less than `1e308` seconds are to be closed: four samples to each of these seconds are
more than a double can count. -/
theorem not_closesMore_at_overflow :
    secondGap.validate = .ok () ∧ { secondGap with shortestGap := 1e308 }.validate = .ok () ∧
      secondGap.shortestGap ≤ 1e308 ∧
      ∃ s s', segment gapTrace.values secondGap = .ok s ∧
        segment gapTrace.values { secondGap with shortestGap := 1e308 } = .ok s' ∧
        ¬ s.mask.Within s'.mask ∧ s.mask.spans.length < s'.mask.spans.length := by
  have hvalid : secondGap.validate = .ok () := by rfl
  have hvalid' : { secondGap with shortestGap := 1e308 }.validate = .ok () :=
    (Params.validate_eq_ok_iff _).mpr (by decide +kernel)
  have hle : secondGap.shortestGap ≤ 1e308 := by decide +kernel
  have hclosed : (Segmentation.ofValues gapTrace.values secondGap).mask =
      [true, true, true, true, true] := by
    decide +kernel
  have hopen : (Segmentation.ofValues gapTrace.values
      { secondGap with shortestGap := 1e308 }).mask = [true, false, false, false, true] := by
    decide +kernel
  have hne : gapTrace.values ≠ [] := by simp [gapTrace, Trace.values]
  refine ⟨hvalid, hvalid', hle, _, _, segment_eq_ok hvalid hne, segment_eq_ok hvalid' hne, ?_, ?_⟩
  · rw [hclosed, hopen]
    have hlow : Mask.Low [true, false, false, false, true] 1 := by rfl
    exact fun hwithin => hlow.not_high (hwithin 1 rfl)
  · rw [hclosed, hopen]
    decide

end EnergyProfile
