import EnergyProfile.Proofs.Mask.Composition
import EnergyProfile.Proofs.Segmentation.Words

/-!
# Windows that do not fit the signal

The smoothing window is fitted to the decimated signal, between one sample and all of them. The
closing window is not, but one longer than the signal closes what a fitted one does. So the mask is
the same as with both windows fitted, and the notes tell where this makes a difference. With sizes in
words a closing window can be too large for its margins, and nothing comes of it.
-/

namespace EnergyProfile

set_option autoImplicit false

variable {α : Type} [Scalar α]

namespace Signal

theorem fittedWindow_of_pos (window : Nat) {n : Nat} (hn : 0 < n) :
    fittedWindow window n = min (max window 1) n :=
  if_neg (Nat.ne_of_gt hn)

theorem fittedWindow_fittedWindow (window n : Nat) :
    fittedWindow (fittedWindow window n) n = fittedWindow window n := by
  unfold fittedWindow
  split <;> omega

theorem movingAverage_fittedWindow (signal : List α) (window : Nat) :
    movingAverage signal (fittedWindow window signal.length) = movingAverage signal window := by
  simp only [movingAverage, fittedWindow_fittedWindow]

end Signal

namespace Segmentation

/-- The mask of a signal with windows of given sizes, in decimated samples. -/
def maskWith (values : List α) (p : Params α) (smoothing closing : Nat) : Mask :=
  let averaged := (Signal.movingAverage (Signal.decimate values p.factor) smoothing).1
  Mask.upsample (Mask.closeGaps (Mask.threshold averaged p.threshold) closing) p.factor values.length

/-- The windows that were asked for are noted where they do not fit a decimated signal of so many
samples, and the mask is that of the fitted ones. -/
structure Fitted (values : List α) (p : Params α) (smoothing closing length : Nat)
    (s : Segmentation) : Prop where
  adjustments : s.adjustments =
    (if 1 ≤ smoothing ∧ smoothing ≤ length then []
      else [.smoothing smoothing (min (max smoothing 1) length)]) ++
    (if length < closing then [.closing closing length] else [])
  smoothingWindow : s.smoothingWindow = min (max smoothing 1) length
  closingWindow : s.closingWindow = closing
  mask : s.mask =
    maskWith values p (min (max smoothing 1) length) (min (max closing 1) length)

theorem length_decimate_pos {values : List α} (p : Params α) (hne : values ≠ []) :
    0 < (Signal.decimate values p.factor).length := by
  have hpos := List.length_pos_iff.mpr hne
  rw [Signal.length_decimate _ p.factor_pos]
  exact Nat.div_pos (by omega) p.factor_pos

theorem mask_ofValues_eq_maskWith (values : List α) (p : Params α) :
    (ofValues values p).mask =
      maskWith values p (Signal.smoothingWindow p.smoothing p.targetRate) p.gapWindow := by
  rw [mask_ofValues]
  rfl

theorem maskWith_fitted {values : List α} (p : Params α) (hne : values ≠ [])
    (smoothing closing : Nat) :
    maskWith values p (min (max smoothing 1) (Signal.decimate values p.factor).length)
        (min (max closing 1) (Signal.decimate values p.factor).length) =
      maskWith values p smoothing closing := by
  have hpos := length_decimate_pos p hne
  have hlength (window : Nat) : (Mask.threshold (Signal.movingAverage
      (Signal.decimate values p.factor) window).1 p.threshold).length =
        (Signal.decimate values p.factor).length := by
    rw [Mask.length_threshold, Signal.length_movingAverage]
  unfold maskWith
  rw [← Signal.fittedWindow_of_pos smoothing hpos, Signal.movingAverage_fittedWindow]
  dsimp only
  rw [Mask.closeGaps_fitted _ closing, hlength]

theorem fitted_ofValues {values : List α} (p : Params α) (hne : values ≠ []) :
    (ofValues values p).Fitted values p (Signal.smoothingWindow p.smoothing p.targetRate)
      p.gapWindow (Signal.decimate values p.factor).length := by
  have hpos := length_decimate_pos p hne
  have hwindow := Signal.fittedWindow_of_pos (Signal.smoothingWindow p.smoothing p.targetRate) hpos
  have happlied : (ofValues values p).smoothingWindow =
      Signal.fittedWindow (Signal.smoothingWindow p.smoothing p.targetRate)
        (Signal.decimate values p.factor).length := rfl
  rw [hwindow] at happlied
  constructor
  · change adjustmentsFor _ (ofValues values p).smoothingWindow p.gapWindow _ = _
    rw [happlied, adjustmentsFor]
    congr 1
    refine if_congr ?_ rfl rfl
    omega
  · exact happlied
  · rfl
  · rw [maskWith_fitted p hne]
    exact mask_ofValues_eq_maskWith values p

end Segmentation

/-- Valid parameters and a signal with samples give a division that notes exactly the windows that do
not fit, and whose mask is that of the fitted windows. With sizes in words it is found if they all
fit. -/
theorem segment_fitted {values : List α} {p : Params α} (hvalid : p.validate = .ok ())
    (hne : values ≠ []) :
    ∃ s, segment values p = .ok s ∧
      s.Fitted values p (Signal.smoothingWindow p.smoothing p.targetRate)
        (Mask.closingWindow p.shortestGap p.targetRate)
        (Signal.decimate values (Signal.decimationFactor p.rate p.targetRate)).length ∧
      SomeIff (SizesFit values.length p) (segmentInWords? values p).run (.ok s) := by
  have hsegment := segment_eq_ok hvalid hne
  have hwords := someIff_segmentInWords? hvalid hne
  rw [hsegment] at hwords
  exact ⟨_, hsegment, Segmentation.fitted_ofValues p hne, hwords⟩

/-- Ten seconds for both windows, of which the recording has not even two. -/
def wideWindows : Params Float := ⟨4, 4, 10, 0.25, 10, 0⟩

theorem segment_fitted_of_wide :
    wideWindows.validate = .ok () ∧ ([1, 0, 0, 0, 1] : List Float) ≠ [] ∧
      ∃ s, segment [1, 0, 0, 0, 1] wideWindows = .ok s ∧
        s.adjustments = [.smoothing 40 5, .closing 40 5] ∧
        s.Fitted [1, 0, 0, 0, 1] wideWindows 40 40 5 ∧
        (segmentInWords? [1, 0, 0, 0, 1] wideWindows).run = some (.ok s) := by
  have hvalid : wideWindows.validate = .ok () := by rfl
  have hne : ([1, 0, 0, 0, 1] : List Float) ≠ [] := by simp
  have hsmoothing : Signal.smoothingWindow wideWindows.smoothing wideWindows.targetRate = 40 := by
    decide +kernel
  have hclosing : Mask.closingWindow wideWindows.shortestGap wideWindows.targetRate = 40 := by
    decide +kernel
  have hfactor : Signal.decimationFactor wideWindows.rate wideWindows.targetRate = 1 := by
    decide +kernel
  obtain ⟨s, hs, hfitted, hwords⟩ := segment_fitted hvalid hne
  rw [hsmoothing, hclosing, hfactor, Signal.decimate_one] at hfitted
  have hroom : SizesFit 5 wideWindows := by
    refine (sizesFit_iff (by decide) (by decide)).mpr ⟨?_, ?_⟩
    · rw [Params.factor, hfactor]
      decide
    · rw [Params.gapWindow, hclosing, Params.blocks, Params.factor, hfactor]
      refine Or.inr (Or.inr ⟨by decide, fun j hj => ?_⟩)
      unfold maxSize
      omega
  exact ⟨hvalid, hne, s, hs, hfitted.adjustments, hfitted, hwords.some_of hroom⟩

/-- Closing gaps of up to ten to the three hundred seconds is valid, and with fitted windows all of
the signal is high. With the window that is asked for there is no result. -/
theorem not_fitted_of_endlessGap :
    endlessGap.validate = .ok () ∧ ([1, 0, 0, 0, 1] : List Float) ≠ [] ∧
      Signal.smoothingWindow endlessGap.smoothing endlessGap.targetRate = 0 ∧
      Mask.closingWindow endlessGap.shortestGap endlessGap.targetRate = maxSize ∧
      Segmentation.maskWith [1, 0, 0, 0, 1] endlessGap 1 5 = [true, true, true, true, true] ∧
      ¬ ∃ s, (segmentInWords? [1, 0, 0, 0, 1] endlessGap).run = some (.ok s) ∧
        s.Fitted [1, 0, 0, 0, 1] endlessGap
          (Signal.smoothingWindow endlessGap.smoothing endlessGap.targetRate)
          (Mask.closingWindow endlessGap.shortestGap endlessGap.targetRate)
          (Signal.decimate ([1, 0, 0, 0, 1] : List Float)
            (Signal.decimationFactor endlessGap.rate endlessGap.targetRate)).length := by
  have hne : ([1, 0, 0, 0, 1] : List Float) ≠ [] := by simp
  refine ⟨validate_endlessGap, hne, by decide +kernel, by decide +kernel, by decide +kernel, ?_⟩
  rintro ⟨s, hs, -⟩
  rw [(someIff_segmentInWords? validate_endlessGap hne).none_of
    (not_sizesFit_endlessGap (by decide))] at hs
  cases hs

end EnergyProfile
