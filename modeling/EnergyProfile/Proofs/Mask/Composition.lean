import EnergyProfile.Proofs.Mask.Filling
import EnergyProfile.Proofs.Mask.Inclusion
import EnergyProfile.Proofs.Segmentation.Blocks

/-!
# Closings one after another

A closed mask has no gap shorter than the window, so a closing with a shorter window finds nothing
to fill in it. A longer window fills what it would have filled at once, as the first closing has
added nothing that it does not add itself. Of several closings only the longest window counts. No
gap is as long as the mask, so a window longer than that closes no more than one of its length.
-/

namespace EnergyProfile.Mask

set_option autoImplicit false

variable {m : Mask} {window window' : Nat}

theorem closeGaps_congr (m : Mask) (h : max window 1 = max window' 1) :
    closeGaps m window = closeGaps m window' := by
  simp only [closeGaps, h]

theorem closeGaps_within_of_gaps (h : ∀ s, Gap m s → s.length < max window 1 →
    s.length < max window' 1) : (closeGaps m window).Within (closeGaps m window') := by
  intro i hi
  rw [high_closeGaps_iff_gap] at hi ⊢
  rcases hi with hi | ⟨s, hs, hshort, hin⟩
  · exact Or.inl hi
  · exact Or.inr ⟨s, hs, h s hs hshort, hin⟩

theorem closeGaps_eq_of_gaps (h : ∀ s, Gap m s → (s.length < max window 1 ↔
    s.length < max window' 1)) : closeGaps m window = closeGaps m window' :=
  Within.eq (by simp only [length_closeGaps])
    (closeGaps_within_of_gaps fun s hs => (h s hs).mp)
    (closeGaps_within_of_gaps fun s hs => (h s hs).mpr)

theorem closeGaps_fitted (m : Mask) (window : Nat) :
    closeGaps m window = closeGaps m (min (max window 1) m.length) := by
  refine closeGaps_eq_of_gaps fun s hs => ?_
  have hpos := hs.start_pos
  have hlt := hs.stop_lt
  unfold Span.length
  omega

theorem closeGaps_eq_self (h : ∀ s, Gap m s → max window 1 ≤ s.length) :
    closeGaps m window = m := by
  have hnone : closeGaps m window = closeGaps m 1 := by
    refine closeGaps_eq_of_gaps fun s hs => iff_of_false (Nat.not_lt.mpr (h s hs)) ?_
    have hne := hs.nonempty
    unfold Span.length
    omega
  rw [hnone]
  exact if_pos (Or.inr rfl)

theorem closeGaps_closeGaps_of_le (m : Mask) (h : window' ≤ max window 1) :
    closeGaps (closeGaps m window) window' = closeGaps m window := by
  refine closeGaps_eq_self fun s hs => ?_
  have hlength := hs.le_length_of_closeGaps
  omega

theorem closeGaps_closeGaps_of_ge (m : Mask) (h : window ≤ window') :
    closeGaps (closeGaps m window) window' = closeGaps m window' := by
  refine Within.eq (by simp only [length_closeGaps]) ?_ ?_
  · have hinside := (closeGaps_within m h).closeGaps (by simp only [length_closeGaps]) window'
    rwa [closeGaps_closeGaps_of_le m (Nat.le_max_left _ _)] at hinside
  · exact (within_closeGaps m window).closeGaps (length_closeGaps m window).symm window'

theorem closeGaps_closeGaps (m : Mask) (a b : Nat) :
    closeGaps (closeGaps m a) b = closeGaps m (max a (max b 1)) := by
  by_cases h : b ≤ max a 1
  · rw [closeGaps_closeGaps_of_le m h]
    exact closeGaps_congr m (by omega)
  · rw [closeGaps_closeGaps_of_ge m (by omega)]
    exact closeGaps_congr m (by omega)

theorem Roomy.of_le {length : Nat} (h : Roomy length window') (hle : window ≤ max window' 1) :
    Roomy length window := by
  rcases h with hzero | hone | ⟨hsize, hreach⟩
  · exact Or.inl hzero
  · exact Or.inr (Or.inl (by omega))
  · by_cases hone : window ≤ 1
    · exact Or.inr (Or.inl hone)
    · refine Or.inr (Or.inr ⟨by omega, fun j hj => ?_⟩)
      have := hreach j (by omega)
      omega

theorem roomy_max_iff (length a b : Nat) :
    Roomy length (max a (max b 1)) ↔ Roomy length a ∧ Roomy length b := by
  constructor
  · intro h
    exact ⟨h.of_le (by omega), h.of_le (by omega)⟩
  · rintro ⟨ha, hb⟩
    rcases Nat.le_total a b with hle | hle
    · exact hb.of_le (by omega)
    · exact ha.of_le (by omega)

theorem closeGapsInWords?_bind (m : Mask) (a b : Nat) :
    (closeGapsInWords? m a >>= fun closed => closeGapsInWords? closed b) =
      closeGapsInWords? m (max a (max b 1)) := by
  have hsecond := someIff_closeGapsInWords? (closeGaps m a) b
  rw [length_closeGaps, closeGaps_closeGaps] at hsecond
  have htwice := (someIff_closeGapsInWords? m a).bind
    (f := fun closed => closeGapsInWords? closed b) hsecond
  have honce := someIff_closeGapsInWords? m (max a (max b 1))
  by_cases hroomy : Roomy m.length (max a (max b 1))
  · rw [honce.some_of hroomy]
    exact htwice.some_of ((roomy_max_iff _ a b).mp hroomy)
  · rw [honce.none_of hroomy]
    exact htwice.none_of fun hboth => hroomy ((roomy_max_iff _ a b).mpr hboth)

/-- A closing leaves a mask as it is, and with sizes in words as well where there is room. -/
structure Closed (m : Mask) (window : Nat) : Prop where
  closeGaps_eq : closeGaps m window = m
  inWords : SomeIff (Roomy m.length window) (closeGapsInWords? m window) m

theorem closed_of_closeGaps_eq (h : closeGaps m window = m) : Closed m window := by
  have hwords := someIff_closeGapsInWords? m window
  rw [h] at hwords
  exact ⟨h, hwords⟩

/-- The mask of a segmentation is closed up to its window at the rate of the recording. -/
theorem closed_mask_of_segment {α : Type} [Scalar α] {values : List α} {p : Params α}
    {s : Segmentation} (h : segment values p = .ok s)
    (hwindow : window ≤ s.decimationFactor * s.closingWindow) : Closed s.mask window := by
  obtain ⟨-, -, rfl⟩ := segment_eq_ok_iff.mp h
  have hblocks := Segmentation.blockwise_ofValues values p
  refine closed_of_closeGaps_eq (closeGaps_eq_self fun t ht => ?_)
  have hlength := hblocks.le_gap_length t ht
  have hne := ht.nonempty
  unfold Span.length at hlength ⊢
  omega

/-- Two closings are the closing with the longer window, in words as well. So a closing is done once
for all windows that are not longer, closings can change places, and the mask of a segmentation
stays as it is. -/
theorem closings_compose (m : Mask) (a b : Nat) :
    (closeGaps (closeGaps m a) b = closeGaps m (max a (max b 1)) ∧
      (closeGapsInWords? m a >>= fun closed => closeGapsInWords? closed b) =
        closeGapsInWords? m (max a (max b 1))) ∧
    Closed (closeGaps m a) a ∧
    closeGaps (closeGaps m a) b = closeGaps (closeGaps m b) a ∧
    (b ≤ a → Closed (closeGaps m a) b) ∧
    ∀ {α : Type} [Scalar α] (values : List α) (p : Params α) (s : Segmentation),
      segment values p = .ok s → b ≤ s.decimationFactor * s.closingWindow → Closed s.mask b := by
  have hclosed (h : b ≤ a) : Closed (closeGaps m a) b :=
    closed_of_closeGaps_eq (closeGaps_closeGaps_of_le m (by omega))
  refine ⟨⟨closeGaps_closeGaps m a b, closeGapsInWords?_bind m a b⟩, ?_, ?_, hclosed, ?_⟩
  · exact closed_of_closeGaps_eq (closeGaps_closeGaps_of_le m (Nat.le_max_left _ _))
  · rw [closeGaps_closeGaps, closeGaps_closeGaps]
    exact closeGaps_congr m (by omega)
  · intro α _ values p s hs hwindow
    exact closed_mask_of_segment hs hwindow

/-- A window of three samples fills the gap of two that one of two leaves, before or after it, and
the mask of a segmentation is closed for its own window. -/
theorem closings_compose_of_two_gaps :
    closeGaps [true, false, true, false, false, true] 2 ≠
        closeGaps [true, false, true, false, false, true] 3 ∧
      closeGaps (closeGaps [true, false, true, false, false, true] 2) 3 =
        closeGaps [true, false, true, false, false, true] 3 ∧
      2 ≤ 3 ∧ Closed (closeGaps [true, false, true, false, false, true] 3) 2 ∧
      ∃ s, segment [1, 0, 1, (0 : Float), 0, 1] ⟨4, 4, 0.25, 0.5, 0.5, 0⟩ = .ok s ∧
        2 ≤ s.decimationFactor * s.closingWindow ∧ Closed s.mask 2 := by
  have hvalid : (⟨4, 4, 0.25, 0.5, 0.5, 0⟩ : Params Float).validate = .ok () := by rfl
  have hsegment := segment_eq_ok hvalid (show [1, 0, 1, (0 : Float), 0, 1] ≠ [] by simp)
  have hwindow : 2 ≤ (Params.factor ⟨4, 4, 0.25, 0.5, 0.5, (0 : Float)⟩) *
      (Params.gapWindow ⟨4, 4, 0.25, 0.5, 0.5, (0 : Float)⟩) := by
    decide +kernel
  obtain ⟨⟨hlonger, -⟩, -⟩ := closings_compose [true, false, true, false, false, true] 2 3
  obtain ⟨-, -, -, hshorter, hmask⟩ := closings_compose [true, false, true, false, false, true] 3 2
  exact ⟨by decide, hlonger, by decide, hshorter (by decide), _, hsegment, hwindow,
    hmask _ _ _ hsegment hwindow⟩

end EnergyProfile.Mask
