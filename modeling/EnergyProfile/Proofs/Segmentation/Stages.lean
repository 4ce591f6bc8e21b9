import EnergyProfile.Proofs.Steps
import EnergyProfile.Segmentation

/-!
# The stages of a segmentation

Between the signal and its mask stands the mask of the decimated and smoothed signal, whose gaps
are still open. Its length is the number of blocks that cover the signal, whatever the arithmetic.
-/

namespace EnergyProfile

set_option autoImplicit false

variable {α : Type} [Scalar α]

theorem Signal.decimationFactor_pos (rate target : α) : 0 < decimationFactor rate target := by
  unfold decimationFactor clampSize maxSize
  split
  · split <;> omega
  · omega

theorem Mask.closingWindow_eq_max (seconds rate : α) :
    closingWindow seconds rate =
      max 1 (clampSize ((Scalar.round? (seconds * rate)).getD 0)) := by
  unfold closingWindow clampSize maxSize
  cases Scalar.round? (seconds * rate) with
  | none => rfl
  | some z =>
    simp only [Option.getD_some]
    split <;> omega

theorem Mask.closingWindow_pos (seconds rate : α) : 0 < closingWindow seconds rate := by
  rw [closingWindow_eq_max]
  omega

@[simp] theorem Signal.length_decimate (signal : List α) {q : Nat} (hq : 0 < q) :
    (decimate signal q).length = (signal.length + q - 1) / q := by
  unfold decimate
  split
  · rename_i h
    rcases h with h | rfl
    · simp [show q = 1 by omega]
    · simp [Nat.div_eq_of_lt (show q - 1 < q by omega)]
  · exact length_convolve _ _ _

namespace Params

/-- The samples of the recording that make one of the decimated signal. -/
def factor (p : Params α) : Nat := Signal.decimationFactor p.rate p.targetRate

/-- The length in decimated samples from which on a gap stays open. -/
def gapWindow (p : Params α) : Nat := Mask.closingWindow p.shortestGap p.targetRate

open Scalar in
theorem validate_eq_ok_iff (p : Params α) : p.validate = .ok () ↔
    (isFinite p.rate ∧ less (ofNat 0) p.rate) ∧
    (isFinite p.targetRate ∧ less (ofNat 0) p.targetRate) ∧
    (isFinite p.smoothing ∧ ¬ less p.smoothing (ofNat 0)) ∧
    (isFinite p.shortestGap ∧ ¬ less p.shortestGap (ofNat 0)) ∧
    (isFinite p.earlyWindow ∧ ¬ less p.earlyWindow (ofNat 0)) ∧ isFinite p.threshold := by
  have hrate (name : String) (value : α) : checkRate name value = .ok () ↔
      isFinite value ∧ less (ofNat 0) value := by
    simp [checkRate]
  have hduration (name : String) (value : α) : checkDuration name value = .ok () ↔
      isFinite value ∧ ¬ less value (ofNat 0) := by
    simp [checkDuration]
  have hthreshold (value : α) : checkThreshold value = .ok () ↔ isFinite value := by
    simp [checkThreshold]
  simp only [validate, bind_eq_ok_iff, hrate, hduration, hthreshold, exists_const]

theorem factor_pos (p : Params α) : 0 < p.factor := Signal.decimationFactor_pos _ _

theorem gapWindow_pos (p : Params α) : 0 < p.gapWindow := Mask.closingWindow_pos _ _

end Params

namespace Segmentation

/-- The thresholded mask of the decimated and smoothed signal, before its gaps are closed. -/
def thresholded (values : List α) (p : Params α) : Mask :=
  Mask.threshold
    (Signal.movingAverage (Signal.decimate values p.factor)
      (Signal.smoothingWindow p.smoothing p.targetRate)).1 p.threshold

variable (values : List α) (p : Params α)

theorem mask_ofValues : (ofValues values p).mask =
    Mask.upsample (Mask.closeGaps (thresholded values p) p.gapWindow) p.factor values.length := by
  simp only [ofValues, thresholded, Params.factor, Params.gapWindow]

theorem decimationFactor_ofValues : (ofValues values p).decimationFactor = p.factor := rfl

theorem length_thresholded :
    (thresholded values p).length = (values.length + p.factor - 1) / p.factor := by
  rw [thresholded, Mask.length_threshold, Signal.length_movingAverage,
    Signal.length_decimate _ p.factor_pos]

theorem length_le_blocks : values.length ≤ (thresholded values p).length * p.factor := by
  have hq := p.factor_pos
  have := Nat.div_add_mod (values.length + p.factor - 1) p.factor
  have := Nat.mod_lt (values.length + p.factor - 1) hq
  rw [length_thresholded, Nat.mul_comm]
  omega

theorem mul_factor_lt_length {i : Nat} (hi : i < (thresholded values p).length) :
    i * p.factor < values.length := by
  have hq := p.factor_pos
  rw [length_thresholded, Nat.lt_div_iff_mul_lt hq] at hi
  omega

end Segmentation

theorem segment_eq_ok {values : List α} {p : Params α} (hvalid : p.validate = .ok ())
    (hne : values ≠ []) : segment values p = .ok (.ofValues values p) := by
  simp [segment, hvalid, hne]

theorem segment_eq_ok_iff {values : List α} {p : Params α} {s : Segmentation} :
    segment values p = .ok s ↔
      p.validate = .ok () ∧ values ≠ [] ∧ s = .ofValues values p := by
  constructor
  · intro h
    unfold segment at h
    split at h
    · cases h
    · rename_i hvalid
      split at h
      · cases h
      · rename_i hne
        exact ⟨hvalid, hne, (Except.ok.inj h).symm⟩
  · rintro ⟨hvalid, hne, rfl⟩
    exact segment_eq_ok hvalid hne

/-- A fault is a parameter that is refused, or else that there are no samples. -/
theorem segment_eq_error_iff {values : List α} {p : Params α} {fault : Fault α} :
    segment values p = .error fault ↔
      (∃ reason, p.validate = .error reason ∧ fault = .invalidParameter reason) ∨
        p.validate = .ok () ∧ values = [] ∧ fault = .malformed .emptySegment := by
  cases hvalid : p.validate with
  | error reason => simp [segment, hvalid, eq_comm]
  | ok =>
    by_cases hnil : values = []
    · simp [segment, hvalid, hnil, eq_comm]
    · simp [segment, hvalid, hnil]

end EnergyProfile
