import EnergyProfile.Proofs.Mask.Upsampling
import EnergyProfile.Proofs.Segmentation.Stages
import Mathlib.Algebra.Order.Floor.Div

/-!
# Blocks read back

An upsampled mask has a block for each state. The blocks are cut off at the length of the result, and
the last state fills what they leave uncovered. One sample out of each block is the mask again if the
last block has begun, but what lies uncovered is read as further blocks of the last state. As many
states as there are blocks, which is what a segmentation has, leave nothing uncovered.
-/

namespace EnergyProfile

set_option autoImplicit false

namespace Mask

/-- Each state as often as its block has samples. -/
def repeated (m : Mask) (q : Nat) : Mask :=
  m.flatMap (List.replicate q)

@[simp] theorem length_repeated (m : Mask) (q : Nat) : (repeated m q).length = m.length * q := by
  simp [repeated, List.length_flatMap]

theorem getElem?_repeated (m : Mask) {q : Nat} (hq : 0 < q) (i : Nat) :
    (repeated m q)[i]? = m[i / q]? := by
  unfold repeated
  induction m generalizing i with
  | nil => simp
  | cons state rest ih =>
    rw [List.flatMap_cons, List.getElem?_append, List.length_replicate]
    split
    · rename_i hi
      rw [List.getElem?_replicate, if_pos hi, Nat.div_eq_of_lt hi, List.getElem?_cons_zero]
    · rename_i hi
      rw [ih, Nat.div_eq_sub_div hq (Nat.not_lt.mp hi), List.getElem?_cons_succ]

theorem repeated_one (m : Mask) : repeated m 1 = m :=
  List.ext_getElem? fun i => by rw [getElem?_repeated m Nat.one_pos, Nat.div_one]

/-- How many samples of a result lie behind the last block. -/
def uncovered (m : Mask) (q length : Nat) : Nat :=
  length - (repeated m (max q 1)).length

/-- The blocks are cut off at the length, and the last state fills what they leave uncovered. -/
theorem upsample_eq_repeated (m : Mask) (q length : Nat) :
    upsample m q length = (repeated m (max q 1)).take length ++
      List.replicate (uncovered m q length) (m.getLast?.getD false) := by
  have hq : 0 < max q 1 := by omega
  have hsize := length_repeated m (max q 1)
  unfold uncovered
  apply List.ext_getElem?
  intro i
  by_cases hi : i < length
  · rw [getElem?_upsample m q hi, List.getElem?_append, List.length_take]
    by_cases hinside : i < m.length * max q 1
    · have hblock : i / max q 1 < m.length :=
        Nat.div_lt_of_lt_mul (by rwa [Nat.mul_comm])
      rw [if_pos (by omega), List.getElem?_take_of_lt hi, getElem?_repeated m hq,
        Nat.min_eq_left (by omega), List.getElem?_eq_getElem hblock]
      rfl
    · have hblock : m.length ≤ i / max q 1 :=
        (Nat.le_div_iff_mul_le hq).mpr (Nat.not_lt.mp hinside)
      rw [if_neg (by omega), List.getElem?_replicate, if_pos (by omega),
        Nat.min_eq_right (by omega), List.getLast?_eq_getElem?]
  · rw [List.getElem?_eq_none (by simpa using hi), List.getElem?_eq_none (by simp; omega)]

/-- As many states as blocks begin in a result cover it. -/
theorem uncovered_eq_zero {m : Mask} {q length : Nat} (hq : 0 < q)
    (h : m.length = length ⌈/⌉ q) : uncovered m q length = 0 := by
  rw [uncovered, length_repeated, Nat.max_eq_left hq, h, Nat.mul_comm]
  exact Nat.sub_eq_zero_of_le (le_smul_ceilDiv hq)

/-- Every `q`-th state, behind some that are skipped. -/
def downsampleFrom (q : Nat) : (skipped : Nat) → Mask → Mask
  | _, [] => []
  | 0, state :: rest => state :: downsampleFrom q (q - 1) rest
  | skipped + 1, _ :: rest => downsampleFrom q skipped rest

/-- Every `q`-th state, from the first one on. -/
def downsample (m : Mask) (q : Nat) : Mask :=
  downsampleFrom q 0 m

theorem getElem?_downsampleFrom {q : Nat} (hq : 0 < q) (skipped : Nat) (m : Mask) (i : Nat) :
    (downsampleFrom q skipped m)[i]? = m[skipped + i * q]? := by
  induction m generalizing skipped i with
  | nil => simp [downsampleFrom]
  | cons state rest ih =>
    cases skipped with
    | succ skipped => rw [downsampleFrom, ih, Nat.add_right_comm, List.getElem?_cons_succ]
    | zero =>
      cases i with
      | zero => simp [downsampleFrom]
      | succ i =>
        have hnext : 0 + (i + 1) * q = q - 1 + i * q + 1 := by
          rw [Nat.add_mul]
          omega
        rw [downsampleFrom, List.getElem?_cons_succ, ih, hnext, List.getElem?_cons_succ]

theorem getElem?_downsample (m : Mask) {q : Nat} (hq : 0 < q) (i : Nat) :
    (downsample m q)[i]? = m[i * q]? := by
  rw [downsample, getElem?_downsampleFrom hq, Nat.zero_add]

theorem lt_ceilDiv_iff {q length i : Nat} (hq : 0 < q) : i < length ⌈/⌉ q ↔ i * q < length := by
  rw [Nat.mul_comm]
  exact lt_iff_lt_of_le_iff_le (ceilDiv_le_iff_le_mul hq)

/-- What is read back is the mask, cut off or filled up to the number of blocks. -/
theorem downsample_upsample (m : Mask) {q : Nat} (hq : 0 < q) (length : Nat) :
    downsample (upsample m q length) q = upsample m 1 (length ⌈/⌉ q) := by
  apply List.ext_getElem?
  intro i
  rw [getElem?_downsample _ hq]
  by_cases hi : i * q < length
  · rw [getElem?_upsample m q hi, getElem?_upsample m 1 ((lt_ceilDiv_iff hq).mpr hi),
      Nat.max_eq_left hq, Nat.mul_div_cancel i hq, Nat.max_self, Nat.div_one]
  · have hblock := (lt_ceilDiv_iff hq).not.mpr hi
    rw [List.getElem?_eq_none (by rwa [length_upsample, ← Nat.not_lt]),
      List.getElem?_eq_none (by rwa [length_upsample, ← Nat.not_lt])]

theorem upsample_one_of_le (m : Mask) {length : Nat} (h : m.length ≤ length) :
    upsample m 1 length = m ++ List.replicate (length - m.length) (m.getLast?.getD false) := by
  rw [upsample_eq_repeated, uncovered, Nat.max_self, repeated_one, List.take_of_length_le h]

theorem upsample_one_eq_self_iff (m : Mask) (length : Nat) :
    upsample m 1 length = m ↔ m.length = length := by
  constructor
  · intro h
    rw [← length_upsample m 1 length, h]
  · rintro rfl
    exact upsample_one m

/-- An upsampled mask has the length that was asked for, and each sample the state of its block, or
of the last block behind it. If the last block has begun, one sample out of each block reads the mask
back and then the last state where the result goes on uncovered. Nothing is uncovered if there is a
state for each block. -/
theorem upsample_blockwise (m : Mask) (q length : Nat) :
    (upsample m q length).length = length ∧
    (∀ i < length, (upsample m q length)[i]? =
      if m = [] then some false else m[min (i / max q 1) (m.length - 1)]?) ∧
    (1 ≤ q → ((m.length : Int) - 1) * q < length →
      downsample (upsample m q length) q =
        m ++ List.replicate (length ⌈/⌉ q - m.length) (m.getLast?.getD false) ∧
      (downsample (upsample m q length) q = m ↔ length ≤ m.length * q)) ∧
    upsample m q length = (repeated m (max q 1)).take length ++
      List.replicate (uncovered m q length) (m.getLast?.getD false) ∧
    (1 ≤ q → m.length = length ⌈/⌉ q → uncovered m q length = 0) := by
  refine ⟨length_upsample m q length, ?_, ?_, upsample_eq_repeated m q length, uncovered_eq_zero⟩
  · intro i hi
    rw [getElem?_upsample m q hi]
    split
    · rename_i hnone
      subst hnone
      rfl
    · rename_i hsome
      have hpos := List.length_pos_iff.mpr hsome
      rw [List.getElem?_eq_getElem (by omega)]
      rfl
  · intro hq hbegun
    rw [Int.sub_mul, Int.one_mul] at hbegun
    have hblocks : m.length ≤ length ⌈/⌉ q := by
      rw [Nat.ceilDiv_eq_add_pred_div, Nat.le_div_iff_mul_le hq]
      omega
    have hcover : length ⌈/⌉ q ≤ m.length ↔ length ≤ q * m.length := ceilDiv_le_iff_le_mul hq
    rw [downsample_upsample m hq]
    refine ⟨upsample_one_of_le m hblocks, ?_⟩
    rw [upsample_one_eq_self_iff, Nat.mul_comm, ← hcover]
    omega

/-- Three blocks of four samples, of which the last one is cut off. -/
theorem upsample_blockwise_of_cut_block :
    9 < 10 ∧ (upsample [true, false, true] 4 10)[9]? = some true ∧
      1 ≤ 4 ∧ ((([true, false, true] : Mask).length : Int) - 1) * (4 : Nat) < (10 : Nat) ∧
      downsample (upsample [true, false, true] 4 10) 4 = [true, false, true] ∧
      ([true, false, true] : Mask).length = 10 ⌈/⌉ 4 ∧
      uncovered [true, false, true] 4 10 = 0 := by
  obtain ⟨-, hstate, hread, -, hcovered⟩ := upsample_blockwise [true, false, true] 4 10
  have hbegun : ((([true, false, true] : Mask).length : Int) - 1) * (4 : Nat) < (10 : Nat) := by
    decide
  obtain ⟨-, hback⟩ := hread (by decide) hbegun
  exact ⟨by decide, hstate 9 (by decide), by decide, hbegun, hback.mpr (by decide), by decide,
    hcovered (by decide) (by decide)⟩

/-- The last block of the mask has begun, and another one of the same state is read behind it. -/
theorem downsample_upsample_ne_of_uncovered :
    1 ≤ 1 ∧ ((([true] : Mask).length : Int) - 1) * (1 : Nat) < (2 : Nat) ∧
      upsample [true] 1 2 = [true, true] ∧ downsample (upsample [true] 1 2) 1 ≠ [true] := by
  decide

end Mask

/-- One sample out of each block of a segmentation is the closed mask of the decimated signal. -/
theorem downsample_mask_of_segment {α : Type} [Scalar α] {values : List α} {p : Params α}
    {s : Segmentation} (h : segment values p = .ok s) :
    Mask.downsample s.mask s.decimationFactor =
      Mask.closeGaps (Segmentation.thresholded values p) s.closingWindow := by
  obtain ⟨-, -, rfl⟩ := segment_eq_ok_iff.mp h
  rw [Segmentation.mask_ofValues, Segmentation.decimationFactor_ofValues,
    Mask.downsample_upsample _ p.factor_pos]
  apply (Mask.upsample_one_eq_self_iff _ _).mpr
  rw [Mask.length_closeGaps, Segmentation.length_thresholded, Nat.ceilDiv_eq_add_pred_div]

end EnergyProfile
