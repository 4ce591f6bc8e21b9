import EnergyProfile.Proofs.Mask.Closing
import EnergyProfile.Proofs.Mask.Spans
import EnergyProfile.Proofs.Mask.Upsampling
import EnergyProfile.Proofs.Segmentation.Stages
import EnergyProfile.Run

/-!
# Blocks in the mask of a segmentation

A segmentation knows its signal only by blocks of samples. Its high stretches begin and end with
blocks, the last one possibly cut off with the signal, and no gap between them is shorter than the
closing window. Nothing is assumed of the arithmetic, so values that are no numbers are covered.
-/

namespace EnergyProfile

set_option autoImplicit false

namespace Segmentation

/-- A mask of so many samples that consists of blocks, with no gap shorter than the window. -/
structure Blockwise (s : Segmentation) (length : Nat) : Prop where
  length_mask : s.mask.length = length
  dvd_start : ∀ t, Mask.Stretch s.mask true t → s.decimationFactor ∣ t.start
  dvd_length : ∀ t, Mask.Stretch s.mask true t → t.stop ≠ length → s.decimationFactor ∣ t.length
  gap_dvd_length : ∀ t, Mask.Gap s.mask t → s.decimationFactor ∣ t.length
  le_gap_length : ∀ t, Mask.Gap s.mask t → s.decimationFactor * s.closingWindow ≤ t.length

variable {α : Type} [Scalar α]

theorem blockwise_ofValues (values : List α) (p : Params α) :
    (ofValues values p).Blockwise values.length := by
  have hq := p.factor_pos
  have hcover : values.length ≤
      (Mask.closeGaps (thresholded values p) p.gapWindow).length * p.factor := by
    rw [Mask.length_closeGaps]
    exact length_le_blocks values p
  have hgap (t : Span) (ht : Mask.Gap (ofValues values p).mask t) :
      ∃ blocks, p.gapWindow ≤ blocks ∧ t.length = p.factor * blocks := by
    rw [mask_ofValues] at ht
    obtain ⟨b, hb, hstart, hstop⟩ := ht.of_upsample hq hcover
    have hwindow := hb.le_length_of_closeGaps
    refine ⟨b.length, by omega, ?_⟩
    rw [Span.length, Span.length, hstart, hstop, ← Nat.sub_mul, Nat.mul_comm]
  constructor
  · rw [mask_ofValues, Mask.length_upsample]
  · intro t ht
    rw [mask_ofValues] at ht
    exact ht.dvd_start hq hcover
  · intro t ht hend
    rw [mask_ofValues] at ht
    exact Nat.dvd_sub ((ht.dvd_stop hq hcover).resolve_right hend) (ht.dvd_start hq hcover)
  · intro t ht
    obtain ⟨blocks, _, heq⟩ := hgap t ht
    exact heq ▸ Nat.dvd_mul_right _ _
  · intro t ht
    obtain ⟨blocks, hwindow, heq⟩ := hgap t ht
    exact heq ▸ Nat.mul_le_mul_left _ hwindow

end Segmentation

variable {α : Type} [Scalar α]

/-- Between neighbouring runs of a blockwise mask lies a gap of at least a window of blocks. -/
theorem Segmentation.Blockwise.isChain_runs {s : Segmentation} {trace : Trace α}
    (h : s.Blockwise trace.length) {window : Nat} {partition : RunPartition α}
    (hpartition : RunPartition.ofMask trace s.mask window = .ok partition) :
    partition.runs.IsChain fun r t => Mask.Gap s.mask ⟨r.stop, t.start⟩ ∧
      r.stop + s.decimationFactor * s.closingWindow ≤ t.start := by
  simp only [RunPartition.ofMask, h.length_mask, if_true, Except.ok.injEq] at hpartition
  rw [← hpartition, List.isChain_map]
  refine (Mask.isChain_spans s.mask).imp fun r t hgap => ⟨hgap, ?_⟩
  have hwindow := h.le_gap_length _ hgap
  have hne := hgap.nonempty
  simp only [Span.length, RunPartition.runOn] at hwindow hne ⊢
  omega

/-- A signal with samples is divided into blocks, and whatever trace it belongs to, a gap of at least
a window of blocks lies between neighbouring runs. -/
theorem segment_blockwise {values : List α} {p : Params α} (hvalid : p.validate = .ok ())
    (hne : values ≠ []) :
    ∃ s, segment values p = .ok s ∧ s.Blockwise values.length ∧
      ∀ (trace : Trace α) (window : Nat), trace.values = values →
        ∃ partition, RunPartition.ofMask trace s.mask window = .ok partition ∧
          partition.runs.IsChain fun r t => Mask.Gap s.mask ⟨r.stop, t.start⟩ ∧
            r.stop + s.decimationFactor * s.closingWindow ≤ t.start := by
  have hblocks := Segmentation.blockwise_ofValues values p
  refine ⟨_, segment_eq_ok hvalid hne, hblocks, fun trace window htrace => ?_⟩
  have hlength : trace.length = values.length := by rw [← htrace, Trace.length_values]
  have hpartition : ∃ partition,
      RunPartition.ofMask trace (Segmentation.ofValues values p).mask window = .ok partition := by
    simp [RunPartition.ofMask, hblocks.length_mask, hlength]
  obtain ⟨partition, hpartition⟩ := hpartition
  exact ⟨partition, hpartition, (hlength ▸ hblocks).isChain_runs hpartition⟩

theorem segment_blockwise_with_nan :
    (⟨4, 2, 0.5, 0.5, 1, 10⟩ : Params Float).validate = .ok () ∧
      [1, 0 / 0, 1 / 0, 0, (1 : Float)] ≠ [] ∧
      ∃ s, segment [1, 0 / 0, 1 / 0, 0, 1] (⟨4, 2, 0.5, 0.5, 1, 10⟩ : Params Float) = .ok s ∧
        s.Blockwise 5 ∧
        ∀ (trace : Trace Float) (window : Nat), trace.values = [1, 0 / 0, 1 / 0, 0, 1] →
          ∃ partition, RunPartition.ofMask trace s.mask window = .ok partition ∧
            partition.runs.IsChain fun r t => Mask.Gap s.mask ⟨r.stop, t.start⟩ ∧
              r.stop + s.decimationFactor * s.closingWindow ≤ t.start := by
  have hvalid : (⟨4, 2, 0.5, 0.5, 1, 10⟩ : Params Float).validate = .ok () := by rfl
  exact ⟨hvalid, by simp, segment_blockwise hvalid (by simp)⟩

end EnergyProfile
