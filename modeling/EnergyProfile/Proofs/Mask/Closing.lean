import EnergyProfile.Proofs.Totals
import EnergyProfile.Proofs.Mask.Stretch

/-!
# Gaps under a closing

Tallies, dilations and erosions are first restated by the samples that are high. A closing then
needs none of them: a sample is high after it exactly if every window over the sample holds a high
one. What becomes of the gaps of a mask, and how long the gaps of a closed mask are, follows from
this alone.
-/

namespace EnergyProfile.Mask

set_option autoImplicit false

theorem foldl_count (m : Mask) (last : Nat) :
    m.foldl (fun last high => if high then last + 1 else last) last = last + m.count true := by
  induction m generalizing last with
  | nil => simp
  | cons high rest ih =>
    rw [List.foldl_cons, ih]
    cases high <;> simp [Nat.add_assoc, Nat.add_comm 1]

theorem size_tally (m : Mask) : m.tally.size = m.length + 1 :=
  size_foldl_push (fun (last : Nat) (high : Bool) => if high then last + 1 else last) m 0

theorem getD_tally {m : Mask} {i : Nat} (hi : i ≤ m.length) :
    m.tally.getD i 0 = (m.take i).count true := by
  have htotal := getD_foldl_push
    (fun (last : Nat) (high : Bool) => if high then last + 1 else last) hi 0 0
  rw [foldl_count, Nat.zero_add] at htotal
  exact htotal

/-- The tallies count the high samples of a window, whatever of it lies outside. -/
theorem countWithin_tally (m : Mask) (first last : Nat) :
    countWithin m.tally first last = ((m.take (last + 1)).drop first).count true := by
  have htake (k : Nat) : m.take (min k m.length) = m.take k := by
    rw [← List.take_take, List.take_length]
  have hsplit : ((m.take (last + 1)).take first ++ (m.take (last + 1)).drop first).count true =
      ((m.take (last + 1)).take first).count true + ((m.take (last + 1)).drop first).count true :=
    List.count_append
  rw [List.take_append_drop, List.take_take] at hsplit
  simp only [countWithin, size_tally, Nat.add_sub_cancel, getD_tally (Nat.min_le_right _ _), htake]
  by_cases h : first ≤ last + 1
  · rw [Nat.min_eq_left h] at hsplit
    omega
  · have hle : (m.take (last + 1)).count true ≤ (m.take first).count true :=
      (List.take_sublist_take_left (by omega)).count_le true
    rw [Nat.min_eq_right (by omega)] at hsplit
    omega

theorem countWithin_pos_iff (m : Mask) (first last : Nat) :
    0 < countWithin m.tally first last ↔ ∃ k, first ≤ k ∧ k ≤ last ∧ m.High k := by
  rw [countWithin_tally, List.count_pos_iff, List.mem_iff_getElem?]
  constructor
  · rintro ⟨i, hi⟩
    rw [List.getElem?_drop, List.getElem?_take] at hi
    split at hi
    · exact ⟨first + i, by omega, by omega, hi⟩
    · simp at hi
  · rintro ⟨k, hfirst, hlast, hk⟩
    refine ⟨k - first, ?_⟩
    rw [List.getElem?_drop, List.getElem?_take, if_pos (by omega)]
    rwa [Nat.add_sub_cancel' hfirst]

/-- A window inside the mask is full exactly if all its samples are high. -/
theorem countWithin_eq_iff (m : Mask) (first last : Nat) (h : first ≤ last + 1)
    (hlast : last < m.length) :
    countWithin m.tally first last = last + 1 - first ↔
      ∀ k, first ≤ k → k ≤ last → m.High k := by
  have hlength : ((m.take (last + 1)).drop first).length = last + 1 - first := by
    simp only [List.length_drop, List.length_take]
    omega
  rw [countWithin_tally, ← hlength, List.count_eq_length, List.forall_mem_iff_forall_getElem]
  constructor
  · intro hall k hfirst hk
    have := hall (k - first) (by omega)
    rw [List.getElem_drop, List.getElem_take] at this
    simp only [Nat.add_sub_cancel' hfirst] at this
    exact List.getElem?_eq_some_iff.mpr ⟨by omega, this.symm⟩
  · intro hall i hi
    rw [List.getElem_drop, List.getElem_take]
    exact (List.getElem?_eq_some_iff.mp (hall (first + i) (by omega) (by omega))).2.symm

theorem high_dilate_iff (m : Mask) (back ahead j : Nat) :
    (dilate m back ahead).High j ↔
      j < m.length ∧ ∃ k, j ≤ k + back ∧ k ≤ j + ahead ∧ m.High k := by
  have hwindow := countWithin_pos_iff m (j - back) (j + ahead)
  simp only [Nat.sub_le_iff_le_add] at hwindow
  by_cases hj : j < m.length
  · simp [High, dilate, hj, hwindow]
  · simp [High, dilate, hj]

theorem high_erode_iff {m : Mask} {back ahead first length : Nat} (hback : back ≤ first)
    (hend : first + length + ahead ≤ m.length) (i : Nat) :
    (erode m back ahead first length).High i ↔
      i < length ∧ ∀ k, first + i ≤ k + back → k ≤ first + i + ahead → m.High k := by
  by_cases hi : i < length
  · have hwindow := countWithin_eq_iff m (first + i - back) (first + i + ahead) (by omega)
      (by omega)
    rw [show first + i + ahead + 1 - (first + i - back) = back + ahead + 1 by omega] at hwindow
    simp only [Nat.sub_le_iff_le_add] at hwindow
    simp [High, erode, hi, hwindow]
  · simp [High, erode, hi]

@[simp] theorem length_padded (m : Mask) (margin : Nat) :
    (padded m margin).length = m.length + 2 * margin := by
  simp only [padded, List.length_append, List.length_replicate]
  omega

theorem high_padded_iff (m : Mask) (margin k : Nat) :
    (padded m margin).High k ↔ ∃ i, m.High i ∧ k = i + margin := by
  have hshift : (padded m margin).High k ↔ margin ≤ k ∧ m.High (k - margin) := by
    simp only [padded, High, List.append_assoc, List.getElem?_append, List.length_replicate,
      List.getElem?_replicate]
    grind
  rw [hshift]
  constructor
  · rintro ⟨hk, hi⟩
    exact ⟨k - margin, hi, by omega⟩
  · rintro ⟨i, hi, rfl⟩
    exact ⟨by omega, by rwa [Nat.add_sub_cancel]⟩

/-- A sample is high after a closing exactly if every window over it holds a high sample. A window
is given by the position `stop` after its last sample, and may reach beyond either end. -/
theorem high_closeGaps_iff (m : Mask) (window i : Nat) :
    (closeGaps m window).High i ↔ i < m.length ∧
      ∀ stop, i < stop → stop ≤ i + max window 1 →
        ∃ k, m.High k ∧ k < stop ∧ stop ≤ k + max window 1 := by
  simp only [closeGaps]
  split
  · rename_i h
    constructor
    · intro hi
      exact ⟨hi.lt_length, fun stop _ _ => ⟨i, hi, by omega, by omega⟩⟩
    · rintro ⟨hi, hall⟩
      have hone : max window 1 = 1 := h.resolve_left (by rintro rfl; simp at hi)
      obtain ⟨k, hk, _, _⟩ := hall (i + 1) (by omega) (by omega)
      rwa [show i = k by omega]
  · generalize hg : max window 1 = g
    have hpos : 1 ≤ g := by omega
    rw [high_erode_iff (by omega) (by rw [length_dilate, length_padded]; omega)]
    refine and_congr_right fun hi => ?_
    simp only [high_dilate_iff, length_padded, high_padded_iff]
    constructor
    · intro hall stop hstart hstop
      obtain ⟨_, k, hback, hahead, i', hi', rfl⟩ := hall (stop + g - g / 2 - 1) (by omega) (by omega)
      exact ⟨i', hi', by omega, by omega⟩
    · intro hall j hback hahead
      obtain ⟨k, hk, hlt, hle⟩ := hall (j + g / 2 + 1 - g) (by omega) (by omega)
      exact ⟨by omega, k + g, by omega, by omega, k, hk, rfl⟩

theorem low_closeGaps_iff (m : Mask) (window i : Nat) :
    (closeGaps m window).Low i ↔ i < m.length ∧
      ∃ stop, i < stop ∧ stop ≤ i + max window 1 ∧
        ∀ k, m.High k → k < stop → k + max window 1 < stop := by
  by_cases hi : i < m.length
  · rw [low_iff_not_high (by simpa using hi), high_closeGaps_iff]
    simp only [hi, true_and, Classical.not_forall, not_exists, not_and, Nat.not_le, exists_prop]
  · have hout : ¬ (closeGaps m window).Low i := fun h => hi (by simpa using h.lt_length)
    simp [hi, hout]

variable {m : Mask} {window : Nat} {s : Span}

theorem Gap.high_closeGaps (h : Gap m s) (hlength : s.length < max window 1) {i : Nat}
    (hstart : s.start ≤ i) (hstop : i < s.stop) : (closeGaps m window).High i := by
  have hlt := h.stop_lt
  have hpos := h.start_pos
  unfold Span.length at hlength
  refine (high_closeGaps_iff m window i).mpr ⟨by omega, fun stop hi hle => ?_⟩
  by_cases hside : s.stop < stop
  · exact ⟨s.stop, h.high_after, hside, by omega⟩
  · exact ⟨s.start - 1, h.high_before, by omega, by omega⟩

theorem Gap.low_closeGaps (h : Gap m s) (hlength : max window 1 ≤ s.length) {i : Nat}
    (hstart : s.start ≤ i) (hstop : i < s.stop) : (closeGaps m window).Low i := by
  have hlt := h.stop_lt
  unfold Span.length at hlength
  refine (low_closeGaps_iff m window i).mpr ⟨by omega, max (i + 1) (s.start + max window 1),
    by omega, by omega, fun k hk hkstop => ?_⟩
  have hout : ¬ (s.start ≤ k ∧ k < s.stop) := fun hin => (h.low hin.1 hin.2).not_high hk
  omega

theorem Gap.le_length_of_closeGaps (h : Gap (closeGaps m window) s) :
    max window 1 ≤ s.length := by
  have hne := h.nonempty
  have hpos := h.start_pos
  have hlt := h.stop_lt
  rw [length_closeGaps] at hlt
  obtain ⟨_, stop, hafter, hle, hclear⟩ :=
    (low_closeGaps_iff m window s.start).mp (h.low (Nat.le_refl _) hne)
  have hlow (i : Nat) (hi : i < m.length) (hi' : i < stop) (hi'' : stop ≤ i + max window 1) :
      ¬ (closeGaps m window).High i :=
    ((low_closeGaps_iff m window i).mpr ⟨hi, stop, hi', hi'', hclear⟩).not_high
  have hleft : stop = s.start + max window 1 := by
    by_cases h' : stop ≤ s.start - 1 + max window 1
    · exact absurd h.high_before (hlow _ (by omega) (by omega) h')
    · omega
  have hright : stop ≤ s.stop := by
    by_cases h' : s.stop < stop
    · exact absurd h.high_after (hlow _ hlt h' (by omega))
    · omega
  unfold Span.length
  omega

end EnergyProfile.Mask
