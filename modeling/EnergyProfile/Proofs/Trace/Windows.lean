import EnergyProfile.Proofs.Access
import EnergyProfile.Proofs.Double.Position
import EnergyProfile.Proofs.Trace.Addressing

/-!
# Windows side by side

A window is cut from a recording at two positions. Each of them is found from one time and the rate
alone, and a later time never gives an earlier position, even where the product of the two is rounded,
infinite or negative. So windows that meet at a time meet at a sample. Where a time or a product is no
number its position is the first one, and the window is still a part of the recording.
-/

namespace EnergyProfile

set_option autoImplicit false

/-- The part of a list between two positions, which must be in order and not beyond its end. -/
def slice? {β : Type} (xs : List β) (first last : Nat) : Option (List β) :=
  if first ≤ last ∧ last ≤ xs.length then some ((xs.take last).drop first) else none

namespace Recording

variable {α : Type}

/-- The samples from one position up to another. -/
def between (r : Recording α) (first last : Nat) : Trace α :=
  (r.samples.take last).drop first

theorem between_append (r : Recording α) {i j k : Nat} (hij : i ≤ j) (hjk : j ≤ k) :
    r.between i j ++ r.between j k = r.between i k := by
  have hrest : r.samples.drop j = (r.samples.drop i).drop (j - i) := by
    rw [List.drop_drop, Nat.add_sub_cancel' hij]
  have hlengths : k - i = (j - i) + (k - j) := by omega
  simp only [between, List.drop_take]
  rw [hrest, hlengths, List.take_add]

/-- A trace is what stands between two positions of a recording. -/
structure Part (r : Recording α) (t : Trace α) (first last : Nat) : Prop where
  ordered : first ≤ last
  inside : last ≤ r.size
  eq_between : t = r.between first last

/-- The samples of two traces, one after the other, are those of a third, column by column. -/
structure Joined (t t' whole : Trace α) : Prop where
  samples : t ++ t' = whole
  times : t.times ++ t'.times = whole.times
  values : t.values ++ t'.values = whole.values

theorem joined_of_parts {r : Recording α} {t t' whole : Trace α} {i j k : Nat} (h : Part r t i j)
    (h' : Part r t' j k) (hwhole : Part r whole i k) : Joined t t' whole := by
  have hsamples : t ++ t' = whole := by
    rw [h.eq_between, h'.eq_between, hwhole.eq_between]
    exact r.between_append h.ordered h'.ordered
  subst hsamples
  exact ⟨rfl, (List.map_append ..).symm, (List.map_append ..).symm⟩

variable [Scalar α]

open Scalar

theorem sampleIndex_le_size (rate time : α) (size : Nat) : sampleIndex rate time size ≤ size := by
  unfold sampleIndex
  split
  · exact Nat.min_le_right _ _
  · split
    · exact Nat.le_refl size
    · exact Nat.zero_le size

/-- The columns of a window, each cut at positions that must be there. -/
def windowColumns? (r : Recording α) (start stop rate : α) : Option (List α × List α) := do
  let first := sampleIndex rate start r.size
  let last := max (sampleIndex rate stop r.size) first
  let times ← slice? r.samples.times first last
  let values ← slice? r.samples.values first last
  return (times, values)

theorem part_window (r : Recording α) (start stop rate : α) :
    Part r (r.window start stop rate) (sampleIndex rate start r.size)
      (max (sampleIndex rate stop r.size) (sampleIndex rate start r.size)) :=
  ⟨Nat.le_max_right _ _, Nat.max_le.mpr ⟨sampleIndex_le_size _ _ _, sampleIndex_le_size _ _ _⟩, rfl⟩

theorem windowColumns?_eq (r : Recording α) (start stop rate : α) :
    windowColumns? r start stop rate =
      some ((r.window start stop rate).times, (r.window start stop rate).values) := by
  obtain ⟨hordered, hinside, -⟩ := r.part_window start stop rate
  have hslice (column : Sample α → α) {first last : Nat} (hordered : first ≤ last)
      (hinside : last ≤ r.size) :
      slice? (r.samples.map column) first last = some ((r.between first last).map column) := by
    have hlength : last ≤ (r.samples.map column).length := by rwa [List.length_map]
    rw [slice?, if_pos ⟨hordered, hlength⟩, between, List.map_drop, List.map_take]
  simp only [windowColumns?, Trace.times, Trace.values, hslice _ hordered hinside]
  rfl

end Recording

namespace Recording

open Scalar Double

/-- The position of a time, from where its product with the rate stands on the line. -/
theorem sampleIndex_eq {rate time : Float} (h : ofFloat (time * rate) ≠ nan) (size : Nat) :
    sampleIndex rate time size =
      if (ofFloat (time * rate)).position < 2 ^ 1024 then
        min ⌊(ofFloat (time * rate)).position⌋.toNat size
      else size := by
  have hhuge : (0 : ℝ) < 2 ^ 1024 := by positivity
  have hzero : (Scalar.ofNat 0 : Float).isFinite := isFinite_iff.mpr ⟨_, _, _, ofFloat_zero_eq⟩
  have hnone {n : Bool} (hread : ofFloat (time * rate) = infinite n) :
      sampleIndex rate time size = if less (ofNat 0) (time * rate) then size else 0 := by
    have hfloor : floor? (time * rate) = none := by
      change (ofFloat (time * rate)).floor? = _
      rw [hread]
      rfl
    rw [sampleIndex, hfloor]
  rcases isFinite_or_infinite h with hfinite | hread | hread
  · obtain ⟨hposition, hrange⟩ := position_of_isFinite hfinite
    obtain ⟨n, m, e, hread⟩ := isFinite_iff.mp hfinite
    have hfloor : floor? (time * rate) = some ⌊(ofFloat (time * rate)).position⌋ := by
      change (ofFloat (time * rate)).floor? = _
      rw [hposition, hread, floor?_finite]
    rw [if_pos (abs_lt.mp hrange).2, sampleIndex, hfloor]
  · have hless : less (ofNat 0) (time * rate) = false :=
      decide_eq_false (not_lt_infinite hzero hread)
    have hend : (infinite true).position < 2 ^ 1024 := (neg_neg_of_pos hhuge).trans hhuge
    have hbelow : ⌊(infinite true).position⌋.toNat = 0 :=
      Int.toNat_of_nonpos (Int.floor_nonpos (neg_nonpos.mpr hhuge.le))
    rw [hnone hread, hread, if_pos hend, hbelow, Nat.zero_min]
    exact if_neg (Bool.not_eq_true _ ▸ hless)
  · have hless : less (ofNat 0) (time * rate) := decide_eq_true (lt_infinite hzero hread)
    have hend : ¬ (infinite false).position < 2 ^ 1024 := lt_irrefl (2 ^ 1024 : ℝ)
    rw [hnone hread, hread, if_neg hend]
    exact if_pos hless

/-- A later time does not give an earlier position. -/
theorem sampleIndex_mono {rate a b : Float} (hrate : Positive (ofFloat rate)) (h : a ≤ b)
    (size : Nat) : sampleIndex rate a size ≤ sampleIndex rate b size := by
  obtain ⟨ha, hb⟩ := ne_nan_of_le h
  have hle := position_mul_le h hrate
  rw [sampleIndex_eq (mul_ne_nan ha hrate), sampleIndex_eq (mul_ne_nan hb hrate)]
  by_cases hend : (ofFloat (b * rate)).position < 2 ^ 1024
  · rw [if_pos hend, if_pos (hle.trans_lt hend)]
    exact min_le_min_right size (Int.toNat_le_toNat (Int.floor_le_floor hle))
  · rw [if_neg hend]
    split
    · exact Nat.min_le_right _ _
    · exact Nat.le_refl size

theorem part_window_of_le (r : Recording Float) {rate a b : Float}
    (hrate : Positive (ofFloat rate)) (h : a ≤ b) :
    Part r (r.window a b rate) (sampleIndex rate a r.size) (sampleIndex rate b r.size) := by
  have hpart := r.part_window a b rate
  rwa [Nat.max_eq_left (sampleIndex_mono hrate h r.size)] at hpart

/-- Windows that meet at a time meet at a sample: one after the other they are the window over both,
in each column. Every window, of whatever times and rate, is a part of the recording, and no index
of it is out of range. -/
theorem windows_adjoin (r : Recording Float) :
    (∀ rate a b c, isFinite rate → less (ofNat 0) rate → a ≤ b → b ≤ c →
      ∃ i j k, Part r (r.window a b rate) i j ∧ Part r (r.window b c rate) j k ∧
        Part r (r.window a c rate) i k ∧
        Joined (r.window a b rate) (r.window b c rate) (r.window a c rate)) ∧
    ∀ start stop rate, (∃ first last, Part r (r.window start stop rate) first last) ∧
      windowColumns? r start stop rate =
        some ((r.window start stop rate).times, (r.window start stop rate).values) := by
  constructor
  · intro rate a b c hfinite hpos hab hbc
    obtain ⟨m, e, hread, hm⟩ := reading_of_rate hfinite hpos
    have hrate : Positive (ofFloat rate) := ⟨m, e, hm, hread⟩
    have hleft := r.part_window_of_le hrate hab
    have hright := r.part_window_of_le hrate hbc
    have hwhole : Part r (r.window a c rate) (sampleIndex rate a r.size)
        (sampleIndex rate c r.size) := by
      have hpart := r.part_window a c rate
      rwa [Nat.max_eq_left (hleft.ordered.trans hright.ordered)] at hpart
    exact ⟨_, _, _, hleft, hright, hwhole, joined_of_parts hleft hright hwhole⟩
  · intro start stop rate
    exact ⟨⟨_, _, r.part_window start stop rate⟩, r.windowColumns?_eq start stop rate⟩

def fourSamples : Recording Float := ⟨[⟨0, 1⟩, ⟨0.25, 2⟩, ⟨0.5, 3⟩, ⟨0.75, 4⟩], by simp⟩

/-- From before every sample to beyond the last one, cut between two samples. -/
theorem windows_adjoin_of_four :
    isFinite (4 : Float) ∧ less (ofNat 0) (4 : Float) ∧ (-1 / 0 : Float) ≤ 0.6 ∧
      (0.6 : Float) ≤ 1 / 0 ∧
      ∃ i j k, Part fourSamples (fourSamples.window (-1 / 0) 0.6 4) i j ∧
        Part fourSamples (fourSamples.window 0.6 (1 / 0) 4) j k ∧
        Part fourSamples (fourSamples.window (-1 / 0) (1 / 0) 4) i k ∧
        Joined (fourSamples.window (-1 / 0) 0.6 4) (fourSamples.window 0.6 (1 / 0) 4)
          (fourSamples.window (-1 / 0) (1 / 0) 4) := by
  have hfinite : isFinite (4 : Float) := by decide +kernel
  have hpos : less (ofNat 0) (4 : Float) := by decide +kernel
  have hleft : (-1 / 0 : Float) ≤ 0.6 := by decide +kernel
  have hright : (0.6 : Float) ≤ 1 / 0 := by decide +kernel
  exact ⟨hfinite, hpos, hleft, hright,
    (windows_adjoin fourSamples).1 _ _ _ _ hfinite hpos hleft hright⟩

end Recording

end EnergyProfile
