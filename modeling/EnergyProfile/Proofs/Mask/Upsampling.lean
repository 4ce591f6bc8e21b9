import EnergyProfile.Proofs.Mask.Stretch
import Mathlib.Data.List.Induction

/-!
# Masks at a higher rate

Upsampling gives sample `i` the state of the block `i / q` it lies in. The stretches of the result
then begin and end with blocks, except at its end, and its gaps are the gaps of the mask.
-/

namespace EnergyProfile.Mask

set_option autoImplicit false

/-- The blocks written so far end where the result ends or their last one does. -/
theorem foldl_blocks (m : Mask) (length : Nat) {q : Nat} (hq : 0 < q) :
    let blocks := m.foldl (fun (full : Array Bool) state =>
      full ++ Array.replicate (min q (length - full.size)) state) #[]
    blocks.size = min length (m.length * q) ∧ ∀ i, i < blocks.size → blocks[i]? = m[i / q]? := by
  induction m using List.reverseRecOn with
  | nil => simp
  | append_singleton m state ih =>
    obtain ⟨hsize, hentries⟩ := ih
    simp only [List.foldl_append, List.foldl_cons, List.foldl_nil, Array.size_append,
      Array.size_replicate, hsize, List.length_append, List.length_singleton, Nat.add_mul,
      Nat.one_mul]
    refine ⟨by omega, fun i hi => ?_⟩
    rw [Array.getElem?_append, hsize]
    split
    · have hblock : i / q < m.length := Nat.div_lt_of_lt_mul (by rw [Nat.mul_comm]; omega)
      rw [hentries i (by omega), List.getElem?_append_left hblock]
    · have hblock : i / q = m.length :=
        Nat.div_eq_of_lt_le (by omega) (by rw [Nat.add_mul, Nat.one_mul]; omega)
      rw [Array.getElem?_replicate, if_pos (by omega), hblock]
      simp

/-- Sample `i` has the state of its block, and beyond the last block the state of that one. -/
theorem getElem?_upsample (m : Mask) (q : Nat) {length i : Nat} (hi : i < length) :
    (upsample m q length)[i]? = some (m[min (i / max q 1) (m.length - 1)]?.getD false) := by
  have hq : 0 < max q 1 := by omega
  obtain ⟨hsize, hentries⟩ := foldl_blocks m length hq
  simp only [upsample]
  rw [Array.getElem?_toList, Array.getElem?_append]
  split
  · rename_i hblocks
    have hblock : i / max q 1 < m.length :=
      Nat.div_lt_of_lt_mul (by rw [Nat.mul_comm]; omega)
    rw [hentries i hblocks, Nat.min_eq_left (by omega), List.getElem?_eq_getElem hblock]
    rfl
  · rename_i hblocks
    have hblock : m.length ≤ i / max q 1 := (Nat.le_div_iff_mul_le hq).mpr (by omega)
    rw [Array.getElem?_replicate, if_pos (by omega), Nat.min_eq_right (by omega),
      List.getLast?_eq_getElem?]

@[simp] theorem length_upsample (m : Mask) (q length : Nat) :
    (upsample m q length).length = length := by
  obtain ⟨hsize, _⟩ := foldl_blocks m length (show 0 < max q 1 by omega)
  simp only [upsample, Array.length_toList, Array.size_append, Array.size_replicate]
  omega

section Covered

variable {m : Mask} {q length : Nat}

theorem getElem?_upsample_of_covered (hq : 0 < q) (hcover : length ≤ m.length * q) {i : Nat}
    (hi : i < length) : (upsample m q length)[i]? = m[i / q]? := by
  have hblock : i / q < m.length := Nat.div_lt_of_lt_mul (by rw [Nat.mul_comm]; omega)
  rw [getElem?_upsample m q hi, Nat.max_eq_left hq, Nat.min_eq_left (by omega),
    List.getElem?_eq_getElem hblock]
  rfl

theorem upsample_one (m : Mask) : m.upsample 1 m.length = m := by
  refine List.ext_getElem? fun i => ?_
  by_cases hi : i < m.length
  · rw [getElem?_upsample_of_covered Nat.one_pos (by omega) hi, Nat.div_one]
  · have hi := Nat.not_lt.mp hi
    rw [List.getElem?_eq_none hi, List.getElem?_eq_none (by rw [length_upsample]; exact hi)]

theorem dvd_of_upsample_ne (hq : 0 < q) (hcover : length ≤ m.length * q) {i : Nat}
    (hi : i + 1 < length) (hne : (upsample m q length)[i + 1]? ≠ (upsample m q length)[i]?) :
    q ∣ i + 1 := by
  by_contra hdvd
  apply hne
  rw [getElem?_upsample_of_covered hq hcover hi,
    getElem?_upsample_of_covered hq hcover (by omega), Nat.succ_div_of_not_dvd hdvd]

variable {state : Bool} {s : Span}

theorem Stretch.dvd_start (h : Stretch (upsample m q length) state s) (hq : 0 < q)
    (hcover : length ≤ m.length * q) : q ∣ s.start := by
  have hne := h.nonempty
  have hstop := h.stop_le
  rw [length_upsample] at hstop
  rcases h.before with hzero | hbefore
  · exact hzero ▸ Nat.dvd_zero q
  · have hfirst := h.uniform s.start (Nat.le_refl _) hne
    cases hstart : s.start with
    | zero => exact Nat.dvd_zero q
    | succ i =>
      simp only [hstart, Nat.add_sub_cancel] at hbefore hfirst
      refine dvd_of_upsample_ne hq hcover (by omega) ?_
      rw [hfirst]
      exact hbefore.symm

theorem Stretch.dvd_stop (h : Stretch (upsample m q length) state s) (hq : 0 < q)
    (hcover : length ≤ m.length * q) : q ∣ s.stop ∨ s.stop = length := by
  have hne := h.nonempty
  have hstop := h.stop_le
  rw [length_upsample] at hstop
  rcases Nat.eq_or_lt_of_le hstop with hend | hlt
  · exact Or.inr hend
  · have hlast := h.uniform (s.stop - 1) (by omega) (by omega)
    have hafter := h.after
    rw [show s.stop = s.stop - 1 + 1 by omega] at hafter ⊢
    refine Or.inl (dvd_of_upsample_ne hq hcover (by omega) ?_)
    rw [hlast]
    exact hafter

/-- A gap at the higher rate is a gap of the mask, each of its samples repeated. -/
theorem Gap.of_upsample (h : Gap (upsample m q length) s) (hq : 0 < q)
    (hcover : length ≤ m.length * q) :
    ∃ t : Span, Gap m t ∧ s.start = t.start * q ∧ s.stop = t.stop * q := by
  have hlt := h.stop_lt
  rw [length_upsample] at hlt
  obtain ⟨first, hfirst⟩ := h.dvd_start hq hcover
  obtain ⟨last, hlast⟩ := (h.dvd_stop hq hcover).resolve_right (by omega)
  rw [Nat.mul_comm] at hfirst hlast
  have hne := h.nonempty
  have hpos := h.start_pos
  rw [hfirst, hlast, Nat.mul_lt_mul_right hq] at hne
  have hfirst' : 0 < first := Nat.pos_of_mul_pos_right (hfirst ▸ hpos)
  have hentry (j : Nat) (hj : j ≤ last) : (upsample m q length)[j * q]? = m[j]? := by
    have := Nat.mul_le_mul_right q hj
    rw [getElem?_upsample_of_covered hq hcover (by omega), Nat.mul_div_cancel _ hq]
  refine ⟨⟨first, last⟩, ⟨⟨hne, fun j hj hj' => ?_, Or.inr ?_, ?_⟩, hfirst', ?_⟩, hfirst, hlast⟩
  · rw [← hentry j (Nat.le_of_lt hj')]
    exact h.low (hfirst ▸ Nat.mul_le_mul_right q hj) (hlast ▸ (Nat.mul_lt_mul_right hq).mpr hj')
  · have hblock : (first * q - 1) / q = first - 1 := by
      have h := Nat.mul_sub_div 0 q first (Nat.mul_pos hq hfirst')
      rwa [Nat.zero_div, Nat.mul_comm] at h
    have hbefore : (upsample m q length).High (s.start - 1) := h.high_before
    have hle := Nat.mul_le_mul_right q (Nat.le_of_lt hne)
    unfold High at hbefore
    rw [hfirst, getElem?_upsample_of_covered hq hcover (by omega), hblock] at hbefore
    simp [hbefore]
  · rw [← hentry last (Nat.le_refl _), ← hlast]
    exact h.after
  · have : last * q < m.length * q := by omega
    exact (Nat.mul_lt_mul_right hq).mp this

end Covered

end EnergyProfile.Mask
