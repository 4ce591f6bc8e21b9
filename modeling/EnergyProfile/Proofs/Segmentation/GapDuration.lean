import EnergyProfile.Proofs.Exact
import EnergyProfile.Proofs.Mask.Closing
import EnergyProfile.Proofs.Mask.Upsampling
import EnergyProfile.Proofs.Segmentation.Stages

/-!
# How long a gap has to be

A gap of the thresholded signal is closed exactly if it has fewer decimated samples than the
closing window. The window is counted at the target rate and the samples lie at another one, unless
the target rate divides the rate of the recording. So gaps are not closed by their duration in
seconds in general; it is stated for which gaps they are, and that they all are when the rate divides.
-/

namespace EnergyProfile

set_option autoImplicit false

namespace Segmentation

/-- All samples of a row of decimated samples are in one state. -/
def UniformOn (s : Segmentation) (state : Bool) (t : Span) : Prop :=
  ∀ i, t.start * s.decimationFactor ≤ i → i < t.stop * s.decimationFactor →
    s.mask[i]? = some state

variable {α : Type} [Scalar α]

/-- The seconds from one decimated sample to the next. -/
noncomputable def spacing (seconds : α → ℝ) (p : Params α) (s : Segmentation) : ℝ :=
  s.decimationFactor / seconds p.rate

/-- A gap of the thresholded signal is treated by its duration, up to the time between two decimated
samples: a shorter one is high in the mask, and a longer one stays low. -/
structure HonoursGap (seconds : α → ℝ) (p : Params α) (s : Segmentation) (t : Span) : Prop where
  filled : t.length * s.spacing seconds p < seconds p.shortestGap - s.spacing seconds p →
    s.UniformOn true t
  kept : seconds p.shortestGap + s.spacing seconds p < t.length * s.spacing seconds p →
    s.UniformOn false t

/-- The closing window says the same of a gap as its duration does. -/
structure WindowAgrees (seconds : α → ℝ) (p : Params α) (s : Segmentation) (t : Span) : Prop where
  shorter : t.length * s.spacing seconds p < seconds p.shortestGap - s.spacing seconds p →
    t.length < s.closingWindow
  longer : seconds p.shortestGap + s.spacing seconds p < t.length * s.spacing seconds p →
    s.closingWindow ≤ t.length

variable {values : List α} {p : Params α} {t : Span}

theorem getElem?_mask_of_gap (ht : Mask.Gap (thresholded values p) t) {i : Nat}
    (hstop : i < t.stop * p.factor) :
    (ofValues values p).mask[i]? =
      (Mask.closeGaps (thresholded values p) p.gapWindow)[i / p.factor]? := by
  have hend := mul_factor_lt_length values p ht.stop_lt
  rw [mask_ofValues, Mask.getElem?_upsample_of_covered p.factor_pos
    (by rw [Mask.length_closeGaps]; exact length_le_blocks values p) (by omega)]

theorem uniformOn_true_of_lt (ht : Mask.Gap (thresholded values p) t)
    (hlength : t.length < p.gapWindow) : (ofValues values p).UniformOn true t := by
  intro i hstart hstop
  rw [decimationFactor_ofValues] at hstart hstop
  rw [getElem?_mask_of_gap ht hstop]
  exact ht.high_closeGaps (by omega) ((Nat.le_div_iff_mul_le p.factor_pos).mpr hstart)
    ((Nat.div_lt_iff_lt_mul p.factor_pos).mpr hstop)

theorem uniformOn_false_of_le (ht : Mask.Gap (thresholded values p) t)
    (hlength : p.gapWindow ≤ t.length) : (ofValues values p).UniformOn false t := by
  intro i hstart hstop
  rw [decimationFactor_ofValues] at hstart hstop
  have hpos := p.gapWindow_pos
  rw [getElem?_mask_of_gap ht hstop]
  exact ht.low_closeGaps (by omega) ((Nat.le_div_iff_mul_le p.factor_pos).mpr hstart)
    ((Nat.div_lt_iff_lt_mul p.factor_pos).mpr hstop)

theorem not_uniformOn_both (s : Segmentation) (hq : 0 < s.decimationFactor)
    (hne : t.start < t.stop) (htrue : s.UniformOn true t) : ¬ s.UniformOn false t := by
  intro hfalse
  have hfirst := (Nat.mul_lt_mul_right hq).mpr hne
  have := (htrue _ (Nat.le_refl _) hfirst).symm.trans (hfalse _ (Nat.le_refl _) hfirst)
  cases this

theorem uniformOn_true_iff (ht : Mask.Gap (thresholded values p) t) :
    (ofValues values p).UniformOn true t ↔ t.length < p.gapWindow := by
  refine ⟨fun htrue => ?_, uniformOn_true_of_lt ht⟩
  by_contra hlength
  exact not_uniformOn_both _ p.factor_pos ht.nonempty htrue
    (uniformOn_false_of_le ht (Nat.le_of_not_lt hlength))

theorem uniformOn_false_iff (ht : Mask.Gap (thresholded values p) t) :
    (ofValues values p).UniformOn false t ↔ p.gapWindow ≤ t.length := by
  refine ⟨fun hfalse => ?_, uniformOn_false_of_le ht⟩
  by_contra hlength
  exact not_uniformOn_both _ p.factor_pos ht.nonempty
    (uniformOn_true_of_lt ht (Nat.lt_of_not_le hlength)) hfalse

/-- A gap is treated by its duration exactly if the closing window agrees. -/
theorem honoursGap_iff (seconds : α → ℝ) (hvalid : p.validate = .ok ()) (hne : values ≠ [])
    (ht : Mask.Gap (thresholded values p) t) :
    ∃ s, segment values p = .ok s ∧ (s.HonoursGap seconds p t ↔ s.WindowAgrees seconds p t) := by
  refine ⟨_, segment_eq_ok hvalid hne, ?_⟩
  constructor
  · intro h
    exact ⟨fun hshort => (uniformOn_true_iff ht).mp (h.filled hshort),
      fun hlong => (uniformOn_false_iff ht).mp (h.kept hlong)⟩
  · intro h
    exact ⟨fun hshort => (uniformOn_true_iff ht).mpr (h.shorter hshort),
      fun hlong => (uniformOn_false_iff ht).mpr (h.longer hlong)⟩

def evenRates : Params Float := ⟨4, 4, 0.25, 0.5, 1, 0⟩

def unevenRates : Params Float := ⟨5, 3, 0.2, 0.5, 1, 0⟩

theorem honoursGap_iff_at_equal_rates :
    evenRates.validate = .ok () ∧ Mask.Gap (thresholded [1, 0, 0, 1] evenRates) ⟨1, 3⟩ ∧
      ∃ s, segment [1, 0, 0, 1] evenRates = .ok s ∧
        (s.HonoursGap (fun x => (Double.ofFloat x).toReal) evenRates ⟨1, 3⟩ ↔
          s.WindowAgrees (fun x => (Double.ofFloat x).toReal) evenRates ⟨1, 3⟩) := by
  have hvalid : evenRates.validate = .ok () := by rfl
  have hmask : thresholded [1, 0, 0, 1] evenRates = [true, false, false, true] := by
    decide +kernel
  have hgap : Mask.Gap (thresholded [1, 0, 0, 1] evenRates) ⟨1, 3⟩ := by
    rw [hmask]
    exact ⟨⟨by decide, by decide, by decide, by decide⟩, by decide, by decide⟩
  exact ⟨hvalid, hgap, honoursGap_iff _ hvalid (by simp) hgap⟩

/-- Three samples at five a second, a gap of 0.6 seconds, stay low although gaps of less than a
second are to be closed: at the target rate there are three samples to the second. -/
theorem not_honoursGap_at_uneven_rates :
    unevenRates.validate = .ok () ∧
      Mask.Gap (thresholded [1, 0, 0, 0, 1] unevenRates) ⟨1, 4⟩ ∧
      ∃ s, segment [1, 0, 0, 0, 1] unevenRates = .ok s ∧
        s.mask = [true, false, false, false, true] ∧
        ¬ s.HonoursGap (fun x => (Double.ofFloat x).toReal) unevenRates ⟨1, 4⟩ := by
  have hvalid : unevenRates.validate = .ok () := by rfl
  have hfactor : unevenRates.factor = 1 := by decide +kernel
  have hmask : thresholded [1, 0, 0, 0, 1] unevenRates = [true, false, false, false, true] := by
    decide +kernel
  have hfinal : (ofValues [1, 0, 0, 0, 1] unevenRates).mask =
      [true, false, false, false, true] := by
    decide +kernel
  refine ⟨hvalid, ?_, _, segment_eq_ok hvalid (by simp), hfinal, fun h => ?_⟩
  · rw [hmask]
    exact ⟨⟨by decide, by decide, by decide, by decide⟩, by decide, by decide⟩
  · have hrate : Double.ofFloat unevenRates.rate = .finite false 5629499534213120 (-50) := by
      decide +kernel
    have hsecond : Double.ofFloat unevenRates.shortestGap =
        .finite false 4503599627370496 (-52) := by
      decide +kernel
    have hfilled := h.filled (by
      rw [spacing, decimationFactor_ofValues, hfactor, hrate, hsecond]
      norm_num [Double.toReal, Span.length])
    have hsecondSample := hfilled 1 (by simp [decimationFactor_ofValues, hfactor])
      (by simp [decimationFactor_ofValues, hfactor])
    rw [hfinal] at hsecondSample
    cases hsecondSample

theorem gapWindow_real {p : Params ℝ} (hgap : 0 ≤ p.shortestGap * p.targetRate) :
    p.gapWindow = max 1 (clampSize ⌊p.shortestGap * p.targetRate + 1 / 2⌋) := by
  have hround : Scalar.round? (p.shortestGap * p.targetRate) =
      some ⌊p.shortestGap * p.targetRate + 1 / 2⌋ := by
    simp [Scalar.round?, not_lt.mpr hgap]
  rw [Params.gapWindow, Mask.closingWindow_eq_max, hround, Option.getD_some]

/-- Where the decimated samples lie at the target rate, every gap is treated by its duration. -/
theorem honoursGap_of_rate_eq {values : List ℝ} {p : Params ℝ} {t : Span}
    (hvalid : p.validate = .ok ()) (hsize : values.length ≤ maxSize)
    (hrate : p.targetRate * p.factor = p.rate) (ht : Mask.Gap (thresholded values p) t) :
    (ofValues values p).HonoursGap id p t := by
  obtain ⟨⟨_, _⟩, ⟨_, htarget⟩, _, ⟨_, hgap⟩, _⟩ := (p.validate_eq_ok_iff).mp hvalid
  simp only [Scalar.less_real, Scalar.ofNat_real, Nat.cast_zero, decide_eq_true_eq,
    not_lt] at htarget hgap
  have hq : (0 : ℝ) < p.factor := by exact_mod_cast p.factor_pos
  have hstep : (ofValues values p).spacing id p = 1 / p.targetRate := by
    rw [spacing, decimationFactor_ofValues, id, ← hrate]
    field_simp
  have hwindow := gapWindow_real (mul_nonneg hgap htarget.le)
  have hlength : t.length < maxSize := by
    have hlt := mul_factor_lt_length values p ht.stop_lt
    have hle := Nat.le_mul_of_pos_right t.stop p.factor_pos
    unfold Span.length
    omega
  set window := p.shortestGap * p.targetRate with hdef
  have hfloor := Int.floor_le (window + 1 / 2)
  have hfloor' := Int.lt_floor_add_one (window + 1 / 2)
  constructor
  · intro hshort
    rw [hstep, id] at hshort
    refine uniformOn_true_of_lt ht ?_
    have hlt : (t.length : ℝ) + 1 < window := by
      rw [hdef, ← div_lt_iff₀ htarget, add_div, ← mul_one_div (t.length : ℝ)]
      linarith
    have hfilled : (t.length : ℤ) < ⌊window + 1 / 2⌋ := by
      have : (t.length : ℝ) < ⌊window + 1 / 2⌋ := by linarith
      exact_mod_cast this
    rw [hwindow]
    unfold clampSize
    omega
  · intro hlong
    rw [hstep, id] at hlong
    refine uniformOn_false_of_le ht ?_
    have hlt : window < t.length - 1 := by
      rw [hdef, ← lt_div_iff₀ htarget, sub_div, ← mul_one_div (t.length : ℝ)]
      linarith
    have hkept : ⌊window + 1 / 2⌋ ≤ (t.length : ℤ) := by
      have : (⌊window + 1 / 2⌋ : ℝ) ≤ t.length := by linarith
      exact_mod_cast this
    have hne := ht.nonempty
    have hpos : 1 ≤ t.length := by
      unfold Span.length
      omega
    rw [hwindow]
    unfold clampSize
    omega

end Segmentation

end EnergyProfile
