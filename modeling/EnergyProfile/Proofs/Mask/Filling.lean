import EnergyProfile.Proofs.Mask.Closing
import EnergyProfile.Proofs.Words

/-!
# What a closing fills

A closing fills the gaps that are shorter than its window, and it changes nothing else. It needs
room beside the mask for its window, and counts up to the end of this room. With sizes in words this
works as long as the end, and what the window reaches from there, have a size.
-/

namespace EnergyProfile.Mask

set_option autoImplicit false

variable {m : Mask} {window : Nat} {s : Span}

theorem Stretch.low_closeGaps_of_edge (h : Stretch m false s)
    (hedge : s.start = 0 ∨ s.stop = m.length) {i : Nat} (hstart : s.start ≤ i)
    (hstop : i < s.stop) : (closeGaps m window).Low i := by
  have hi := Low.lt_length (h.uniform i hstart hstop)
  have hlow (k : Nat) (hk : m.High k) : ¬ (s.start ≤ k ∧ k < s.stop) :=
    fun hin => Low.not_high (h.uniform k hin.1 hin.2) hk
  refine (low_closeGaps_iff m window i).mpr ⟨hi, ?_⟩
  rcases hedge with hzero | hend
  · refine ⟨i + 1, by omega, by omega, fun k hk hlt => ?_⟩
    exact absurd ⟨by omega, by omega⟩ (hlow k hk)
  · refine ⟨i + max window 1, by omega, by omega, fun k hk hlt => ?_⟩
    have := hlow k hk
    have := hk.lt_length
    omega

theorem Stretch.low_closeGaps (h : Stretch m false s)
    (hkept : s.start = 0 ∨ s.stop = m.length ∨ window ≤ s.length) {i : Nat}
    (hstart : s.start ≤ i) (hstop : i < s.stop) : (closeGaps m window).Low i := by
  by_cases hedge : s.start = 0 ∨ s.stop = m.length
  · exact h.low_closeGaps_of_edge hedge hstart hstop
  · rw [not_or] at hedge
    have hne := h.nonempty
    have hle := h.stop_le
    have hgap : Gap m s := ⟨h, by omega, by omega⟩
    refine hgap.low_closeGaps ?_ hstart hstop
    have hwindow := (hkept.resolve_left hedge.1).resolve_left hedge.2
    unfold Span.length at hwindow ⊢
    omega

/-- After a closing the high samples are those that were high before and those of short gaps. -/
theorem high_closeGaps_iff_gap (m : Mask) (window i : Nat) :
    (closeGaps m window).High i ↔ m.High i ∨
      ∃ s, Gap m s ∧ s.length < max window 1 ∧ s.start ≤ i ∧ i < s.stop := by
  constructor
  · intro hi
    by_cases hbefore : m.High i
    · exact Or.inl hbefore
    · right
      have hlt : i < m.length := by simpa using hi.lt_length
      obtain ⟨s, hs, hstart, hstop⟩ := exists_stretch_at ((low_iff_not_high hlt).mpr hbefore)
      have hfilled : ¬ (s.start = 0 ∨ s.stop = m.length ∨ window ≤ s.length) :=
        fun hkept => (hs.low_closeGaps hkept hstart hstop).not_high hi
      simp only [not_or] at hfilled
      obtain ⟨hfirst, hlast, hshort⟩ := hfilled
      have hle := hs.stop_le
      exact ⟨s, ⟨hs, by omega, by omega⟩, by omega, hstart, hstop⟩
  · rintro (hi | ⟨s, hs, hshort, hstart, hstop⟩)
    · exact (high_closeGaps_iff m window i).mpr
        ⟨hi.lt_length, fun stop hstart hstop => ⟨i, hi, hstart, hstop⟩⟩
    · exact hs.high_closeGaps hshort hstart hstop

/-- A mask of the same length with the short gaps filled, and no other sample changed. -/
structure Filled (m : Mask) (window : Nat) (closed : Mask) : Prop where
  length_eq : closed.length = m.length
  high_iff : ∀ i, closed.High i ↔ m.High i ∨
    ∃ s, Gap m s ∧ s.length < max window 1 ∧ s.start ≤ i ∧ i < s.stop
  low_of_kept : ∀ s, Stretch m false s → s.start = 0 ∨ s.stop = m.length ∨ window ≤ s.length →
    ∀ i, s.start ≤ i → i < s.stop → closed.Low i

theorem filled_closeGaps (m : Mask) (window : Nat) : Filled m window (closeGaps m window) where
  length_eq := length_closeGaps m window
  high_iff := high_closeGaps_iff_gap m window
  low_of_kept := fun _ hs hkept _ hstart hstop => hs.low_closeGaps hkept hstart hstop

/-- The sizes of a closing have room in words: the length of the mask with its margins, of which one
more is counted, and the last position that the window reaches from there. -/
def Roomy (length window : Nat) : Prop :=
  length = 0 ∨ window ≤ 1 ∨
    length + 2 * window < maxSize ∧ ∀ j < length + 2 * window, j + window / 2 ≤ maxSize

theorem someIff_tallyInWords? (m : Mask) :
    SomeIff (m.length + 1 ≤ maxSize) (tallyInWords? m) (tally m) :=
  someIff_of_size _ fun _ => tally m

theorem someIff_paddedInWords? (m : Mask) (margin : Nat) :
    SomeIff (m.length + 2 * margin ≤ maxSize) (paddedInWords? m margin) (padded m margin) := by
  have hlength (k : Nat) := someIff_of_size (m.length + k) fun _ => padded m margin
  exact ((someIff_size? (2 * margin)).bind_of (hlength (2 * margin))) (by omega)

theorem someIff_dilateInWords? (m : Mask) (back ahead : Nat) :
    SomeIff (m.length + 1 ≤ maxSize ∧ ∀ j < m.length, j + ahead ≤ maxSize)
      (dilateInWords? m back ahead) (dilate m back ahead) := by
  have hreach (j : Nat) := someIff_of_size (j + ahead) fun last =>
    decide (0 < countWithin (tally m) (j - back) last)
  refine ((someIff_tallyInWords? m).bind (.mapM fun j _ => hreach j)).congr ?_
  simp only [List.mem_range]

theorem someIff_erodeInWords? (m : Mask) (back ahead first length : Nat) :
    SomeIff (m.length + 1 ≤ maxSize ∧ first + length ≤ maxSize ∧
        ∀ i, first ≤ i ∧ i < first + length → i + ahead ≤ maxSize)
      (erodeInWords? m back ahead first length) (erode m back ahead first length) := by
  have hreach (i : Nat) := someIff_of_size (i + ahead) fun last =>
    countWithin (tally m) (i - back) last == back + ahead + 1
  refine ((someIff_tallyInWords? m).bind ((someIff_size? (first + length)).bind
    (.mapM fun i _ => hreach i))).congr ?_
  simp only [List.mem_range'_1]

theorem someIff_closeGapsInWords? (m : Mask) (window : Nat) :
    SomeIff (Roomy m.length window) (closeGapsInWords? m window) (closeGaps m window) := by
  simp only [closeGapsInWords?, closeGaps]
  by_cases hsame : m = [] ∨ max window 1 = 1
  · rw [if_pos hsame, if_pos hsame]
    refine (SomeIff.pure m).congr (iff_of_true trivial ?_)
    rcases hsame with rfl | hsmall
    · exact Or.inl rfl
    · exact Or.inr (Or.inl (by omega))
  · rw [if_neg hsame, if_neg hsame]
    rw [not_or, ← List.length_eq_zero_iff] at hsame
    obtain ⟨hne, hlarge⟩ := hsame
    have hwindow : max window 1 = window := by omega
    rw [hwindow]
    refine ((someIff_paddedInWords? m window).bind ((someIff_dilateInWords? _ _ _).bind
      (someIff_erodeInWords? _ _ _ _ _))).congr ?_
    simp only [length_dilate, length_padded]
    unfold Roomy
    constructor
    · rintro ⟨-, ⟨hcount, hreach⟩, -⟩
      exact Or.inr (Or.inr ⟨by omega, fun j hj => hreach j (by omega)⟩)
    · intro hroomy
      obtain ⟨hcount, hreach⟩ := (hroomy.resolve_left hne).resolve_left (by omega)
      refine ⟨by omega, ⟨by omega, fun j hj => hreach j (by omega)⟩, by omega, by omega, ?_⟩
      intro i hi
      have := hreach i (by omega)
      omega

/-- A closing with sizes in words fills the short gaps and nothing else if it has room for its
window, and otherwise it has no result. -/
theorem closing_filled (m : Mask) (window : Nat) :
    (Roomy m.length window → ∃ closed, closeGapsInWords? m window = some closed ∧
      Filled m window closed) ∧
    (¬ Roomy m.length window → closeGapsInWords? m window = none) := by
  have hclosed := someIff_closeGapsInWords? m window
  constructor
  · intro hroomy
    exact ⟨closeGaps m window, hclosed.some_of hroomy, filled_closeGaps m window⟩
  · exact hclosed.none_of

/-- A window of three samples has room beside the mask, and the largest window has none. -/
theorem closing_filled_of_two_gaps :
    (∃ closed, closeGapsInWords? [true, false, false, true, false, false, false, true] 3 =
        some closed ∧
      Filled [true, false, false, true, false, false, false, true] 3 closed) ∧
    closeGapsInWords? [true, false, false, true, false, false, false, true] maxSize = none := by
  have hroomy : Roomy 8 3 := by
    refine Or.inr (Or.inr ⟨by decide, fun j hj => ?_⟩)
    unfold maxSize
    omega
  have hnot : ¬ Roomy 8 maxSize := by
    unfold Roomy maxSize
    omega
  exact ⟨(closing_filled _ _).1 hroomy, (closing_filled _ _).2 hnot⟩

/-- The largest window fills no gap: its margins have no size. -/
theorem not_filled_of_maxSize :
    Gap [true, false, true] ⟨1, 2⟩ ∧ Span.length ⟨1, 2⟩ < max maxSize 1 ∧
      ¬ ∃ closed, closeGapsInWords? [true, false, true] maxSize = some closed ∧
        Filled [true, false, true] maxSize closed := by
  refine ⟨⟨⟨by decide, ?_, Or.inr (by decide), by decide⟩, by decide, by decide⟩, by decide, ?_⟩
  · intro i hstart hstop
    obtain rfl : i = 1 := Nat.le_antisymm (Nat.lt_succ_iff.mp hstop) hstart
    rfl
  · rintro ⟨closed, hclosed, -⟩
    have hnone : closeGapsInWords? [true, false, true] maxSize = none := by decide
    simp [hnone] at hclosed

end EnergyProfile.Mask
