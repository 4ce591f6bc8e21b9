import EnergyProfile.CommandLine.Action
import EnergyProfile.Proofs.Double.Order

/-!
# Times that address samples

Sample `i` of a recording is taken at `i / rate`, and a time is taken back to an index by the whole
part of its product with the rate. Over exact numbers this is the sample itself. In doubles both
steps are rounded: the product is within one of the sample, so the index is the sample or, where the
product falls short, the one before it. A time beyond the range of doubles takes the whole recording.
-/

namespace EnergyProfile

set_option autoImplicit false

namespace Recording

open Scalar

theorem take_max_drop {β : Type} (xs : List β) (first last : Nat) :
    (xs.take (max last first)).drop first = (xs.take last).drop first := by
  rcases Nat.le_total first last with h | h
  · rw [Nat.max_eq_left h]
  · rw [Nat.max_eq_right h, List.drop_eq_nil_of_le (by simp),
      List.drop_eq_nil_of_le (by simp; omega)]

theorem sampleIndex_real {rate : ℝ} (hrate : 0 < rate) {k size : Nat} (hk : k ≤ size) :
    sampleIndex rate (ofNat k / rate) size = k := by
  have htime : (ofNat k / rate : ℝ) * rate = k := div_mul_cancel₀ (k : ℝ) hrate.ne'
  have hfloor : (floor? ((k : ℝ)) : Option ℤ) = some (k : ℤ) := by
    simp [floor?]
  rw [sampleIndex, htime, hfloor]
  simpa using hk

/-- Exact times address samples exactly. -/
theorem window_real (r : Recording ℝ) {rate : ℝ} (hrate : 0 < rate) {i j : Nat} (hij : i ≤ j)
    (hj : j ≤ r.size) :
    r.window (ofNat i / rate) (ofNat j / rate) rate = (r.samples.take j).drop i := by
  simp only [window, sampleIndex_real hrate hj, sampleIndex_real hrate (hij.trans hj)]
  exact take_max_drop _ _ _

open Double

/-- Whether the time of a sample, taken back at the same rate, falls short of the sample. -/
def fallsShort (rate : Float) (k : Nat) : Bool :=
  less (ofNat k / rate * rate) (ofNat k)

/-- The sample that the time of sample `k` addresses in a recording of so many samples. -/
def addressed (rate : Float) (size k : Nat) : Nat :=
  if isFinite (ofNat k / rate) then k - (fallsShort rate k).toNat else size

theorem reading_of_rate {rate : Float} (hfinite : isFinite rate) (hpos : less (ofNat 0) rate) :
    ∃ m e, ofFloat rate = finite false m e ∧ 0 < m := by
  obtain ⟨n, m, e, hrate⟩ := isFinite_iff.mp hfinite
  have hreal := (zero_less_iff hfinite).mp hpos
  rw [hrate] at hreal
  obtain ⟨hvalue, hsign⟩ := toReal_of_nonneg hreal.le
  rw [hvalue] at hreal
  have hm : m ≠ 0 := by
    rintro rfl
    simp at hreal
  cases n with
  | true => exact absurd (hsign rfl) hm
  | false => exact ⟨m, e, hrate, Nat.pos_of_ne_zero hm⟩

theorem abs_rounded_product_sub_lt {k : Nat} {rate : ℝ} (hk : k ≤ 2 ^ 51) (hrate : 0 < rate)
    (hlt : rate < 2 ^ 1024) : |rounded (rounded (k / rate) * rate) - k| < 1 := by
  rcases Nat.eq_zero_or_pos k with rfl | hpos
  · simp
  have hone : (1 : ℝ) ≤ k := by exact_mod_cast hpos
  have hk : (k : ℝ) ≤ 2 ^ 51 := by exact_mod_cast hk
  have hquotient := abs_rounded_sub_le_max (show 0 < (k : ℝ) / rate by positivity)
  set t := rounded (k / rate)
  have hrelative : (k : ℝ) / 2 ^ 53 ≤ 1 / 4 := by
    rw [div_le_div_iff₀ (by positivity) (by positivity)]
    linarith
  have habsolute : rate / 2 ^ 1075 ≤ 1 / 4 := by
    have hsplit : (2 : ℝ) ^ 1075 = 2 ^ 1024 * 2 ^ 51 := pow_add 2 1024 51
    rw [div_le_div_iff₀ (by positivity) (by positivity), hsplit, one_mul]
    calc rate * 4 ≤ 2 ^ 1024 * 4 := by gcongr
      _ ≤ 2 ^ 1024 * 2 ^ 51 := by gcongr; norm_num
  have htime : |t * rate - k| ≤ 1 / 4 := by
    have hsub : t * rate - k = (t - k / rate) * rate := by field_simp
    have hexact : (k : ℝ) / rate / 2 ^ 53 * rate = k / 2 ^ 53 := by field_simp
    rw [hsub, abs_mul, abs_of_pos hrate]
    calc _ ≤ max ((k : ℝ) / rate / 2 ^ 53) (1 / 2 ^ 1075) * rate := by gcongr
      _ = max ((k : ℝ) / 2 ^ 53) (rate / 2 ^ 1075) := by
        rw [max_mul_of_nonneg _ _ hrate.le, hexact, one_div_mul_eq_div]
      _ ≤ 1 / 4 := max_le hrelative habsolute
  have hbounds := abs_le.mp htime
  have hproduct := abs_rounded_sub_le_max (show 0 < t * rate by linarith)
  have hsmall : max (t * rate / 2 ^ 53) (1 / 2 ^ 1075) ≤ 1 / 2 := by
    apply max_le
    · rw [div_le_div_iff₀ (by positivity) (by positivity)]
      linarith
    · exact one_div_le_one_div_of_le two_pos (le_self_pow₀ one_le_two (by decide))
  have hbounds' := abs_le.mp (hproduct.trans hsmall)
  rw [abs_lt]
  constructor <;> linarith

theorem floor_eq_sub_toNat {k : Nat} {z : ℝ} (h : |z - k| < 1) (hz : 0 ≤ z) :
    ⌊z⌋.toNat = k - (decide (z < k)).toNat := by
  obtain ⟨hlow, hhigh⟩ := abs_lt.mp h
  by_cases hlt : z < k
  · have hpos : 1 ≤ k := by
      by_contra hzero
      obtain rfl : k = 0 := by omega
      simp at hlt
      linarith
    have hfloor : ⌊z⌋ = (k : ℤ) - 1 := by
      rw [Int.floor_eq_iff]
      push_cast
      constructor <;> linarith
    simp [hfloor, hlt]
  · have hfloor : ⌊z⌋ = (k : ℤ) := by
      rw [Int.floor_eq_iff]
      push_cast
      constructor <;> linarith
    simp [hfloor, hlt]

/-- The product of a finite time with the rate is a number within one of the sample. -/
theorem product_of_time {rate : Float} {m k : Nat} {e : ℤ} (hrate : ofFloat rate = finite false m e)
    (hm : 0 < m) (hk : k ≤ 2 ^ 51) (htime : isFinite (ofNat k / rate)) :
    ∃ z : ℝ, 0 ≤ z ∧ |z - k| < 1 ∧ Scalar.floor? (ofNat k / rate * rate) = some ⌊z⌋ ∧
      fallsShort rate k = decide (z < k) := by
  have hratepos : (0 : ℝ) < m * 2 ^ e := by
    have : (0 : ℝ) < m := by exact_mod_cast hm
    positivity
  obtain ⟨a, b, hsample, hvalue⟩ := ofFloat_ofNat (show k < 2 ^ 53 by omega)
  have hquotient : Holds false (rounded (k / (m * 2 ^ e))) (ofFloat (ofNat k / rate)) := by
    have h := holds_div hsample hrate hm
    rw [hvalue] at h
    exact h
  obtain ⟨n, c, d, hread⟩ := isFinite_iff.mp htime
  rw [hread] at hquotient
  obtain ⟨rfl, htimevalue, -⟩ := hquotient
  have hproduct := holds_mul hread hrate
  rw [htimevalue] at hproduct
  have hclose := abs_rounded_product_sub_lt hk hratepos (Fits.ofFloat hrate).lt_huge
  have hhuge := natCast_lt_huge (show k + 1 < 2 ^ 53 by omega)
  push_cast at hhuge
  obtain ⟨g, h, hproductread, hproductvalue⟩ := hproduct.exists_finite
    ((sub_lt_iff_lt_add'.mp (abs_lt.mp hclose).2).trans hhuge)
  refine ⟨g * 2 ^ h, by positivity, ?_, ?_, ?_⟩
  · rwa [hproductvalue]
  · change (ofFloat _).floor? = _
    rw [hproductread, floor?_finite, toReal_finite]
    rfl
  · have hlt := lt_iff_toReal (isFinite_iff.mpr ⟨_, _, _, hproductread⟩)
      (isFinite_iff.mpr ⟨_, _, _, hsample⟩)
    rw [hproductread, hsample, toReal_finite, toReal_finite] at hlt
    rw [fallsShort, ← hvalue]
    exact decide_eq_decide.mpr hlt

/-- A time that is not finite lies beyond every sample. -/
theorem product_of_huge_time {rate : Float} {m k : Nat} {e : ℤ}
    (hrate : ofFloat rate = finite false m e) (hm : 0 < m) (hk : k ≤ 2 ^ 51)
    (htime : ¬ isFinite (ofNat k / rate)) :
    Scalar.floor? (ofNat k / rate * rate) = none ∧ less (ofNat 0) (ofNat k / rate * rate) := by
  obtain ⟨a, b, hsample, -⟩ := ofFloat_ofNat (show k < 2 ^ 53 by omega)
  have hquotient := holds_div hsample hrate hm
  have hlost : ofFloat (ofNat k / rate) = infinite false := by
    change ofFloat (Float.ofNat k / rate) = _
    cases hread : ofFloat (Float.ofNat k / rate) with
    | nan =>
      rw [hread] at hquotient
      exact hquotient.elim
    | infinite sign =>
      rw [hread] at hquotient
      rw [hquotient.1]
      rfl
    | finite n c d => exact absurd (isFinite_iff.mpr ⟨n, c, d, hread⟩) htime
  have hproduct := infinite_mul hlost hrate hm
  constructor
  · change (ofFloat _).floor? = _
    rw [hproduct]
    rfl
  · exact decide_eq_true (lt_infinite (isFinite_iff.mpr ⟨_, _, _, ofFloat_zero_eq⟩) hproduct)

/-- The time of a sample addresses the sample, or the one before it where it falls short. -/
theorem sampleIndex_of_sample {rate : Float} (hfinite : isFinite rate)
    (hpos : less (ofNat 0) rate) {k size : Nat} (hk : k ≤ size) (hsize : size ≤ 2 ^ 51) :
    sampleIndex rate (ofNat k / rate) size = addressed rate size k := by
  obtain ⟨m, e, hrate, hm⟩ := reading_of_rate hfinite hpos
  by_cases htime : isFinite (ofNat k / rate : Float)
  · obtain ⟨z, hz, hclose, hfloor, hless⟩ := product_of_time hrate hm (hk.trans hsize) htime
    have hindex := floor_eq_sub_toNat hclose hz
    rw [sampleIndex, hfloor, addressed, if_pos htime, hless]
    simp only [hindex]
    omega
  · obtain ⟨hfloor, hless⟩ := product_of_huge_time hrate hm (hk.trans hsize) htime
    rw [sampleIndex, hfloor, addressed, if_neg htime]
    simp only [hless, if_true]

theorem sampleIndex_zero {rate : Float} (hfinite : isFinite rate) (hpos : less (ofNat 0) rate)
    (size : Nat) : sampleIndex rate 0 size = 0 := by
  obtain ⟨m, e, hrate, hm⟩ := reading_of_rate hfinite hpos
  have hproduct := holds_mul ofFloat_zero_eq hrate
  rw [Nat.cast_zero, zero_mul, zero_mul, rounded_zero] at hproduct
  obtain ⟨g, h, hread, hvalue⟩ := hproduct.exists_finite (by positivity)
  have hfloor : floor? ((0 : Float) * rate) = some 0 := by
    change (ofFloat (ofNat 0 * rate)).floor? = _
    rw [hread, floor?_finite, toReal_finite]
    simp [hvalue]
  rw [sampleIndex, hfloor]
  simp

/-- Which samples a window between the times of two samples holds, and which ones the window of the
segment command holds when no bounds are given: the samples asked for, except that either end may
come one sample early. -/
theorem window_of_samples (r : Recording Float) {rate : Float} (hfinite : isFinite rate)
    (hpos : less (ofNat 0) rate) (hsize : r.size ≤ 2 ^ 51) :
    (∀ i j, i ≤ j → j ≤ r.size →
      r.window (ofNat i / rate) (ofNat j / rate) rate =
        (r.samples.take (addressed rate r.size j)).drop (addressed rate r.size i)) ∧
    ∀ p : Params Float, p.rate = rate →
      r.window (CommandLine.segmentBounds r p none none).1
        (CommandLine.segmentBounds r p none none).2 rate =
        r.samples.take (addressed rate r.size r.size) := by
  constructor
  · intro i j hij hj
    simp only [window, sampleIndex_of_sample hfinite hpos hj hsize,
      sampleIndex_of_sample hfinite hpos (hij.trans hj) hsize]
    exact take_max_drop _ _ _
  · rintro p rfl
    have hstop := sampleIndex_of_sample hfinite hpos (Nat.le_refl r.size) hsize
    have hstart := sampleIndex_zero hfinite hpos r.size
    simp only [CommandLine.segmentBounds, Option.getD_none, window]
    rw [hstart, Nat.max_zero, List.drop_zero]
    exact congrArg (r.samples.take ·) hstop

def oneSample : Recording Float := ⟨[⟨0, 1⟩], by simp⟩

def atFortyNine : Params Float := { Params.standard with rate := 49 }

theorem window_of_samples_of_one :
    isFinite atFortyNine.rate ∧ less (ofNat 0) atFortyNine.rate ∧ oneSample.size ≤ 2 ^ 51 ∧
      (∀ i j, i ≤ j → j ≤ oneSample.size →
        oneSample.window (ofNat i / atFortyNine.rate) (ofNat j / atFortyNine.rate)
            atFortyNine.rate =
          (oneSample.samples.take (addressed atFortyNine.rate oneSample.size j)).drop
            (addressed atFortyNine.rate oneSample.size i)) ∧
      ∀ p : Params Float, p.rate = atFortyNine.rate →
        oneSample.window (CommandLine.segmentBounds oneSample p none none).1
          (CommandLine.segmentBounds oneSample p none none).2 atFortyNine.rate =
          oneSample.samples.take (addressed atFortyNine.rate oneSample.size oneSample.size) := by
  have hfinite : isFinite atFortyNine.rate := by decide +kernel
  have hpos : less (ofNat 0) atFortyNine.rate := by decide +kernel
  have hsize : oneSample.size ≤ 2 ^ 51 := by decide
  exact ⟨hfinite, hpos, hsize, window_of_samples oneSample hfinite hpos hsize⟩

/-- At forty-nine samples a second a recording of one sample is taken for empty: the time at which
it ends, times the rate, is less than one. -/
theorem window_ne_samples_at_fortyNine :
    atFortyNine.validate = .ok () ∧
      oneSample.window (ofNat 0 / 49) (ofNat 1 / 49) 49 ≠ (oneSample.samples.take 1).drop 0 ∧
      oneSample.window (CommandLine.segmentBounds oneSample atFortyNine none none).1
        (CommandLine.segmentBounds oneSample atFortyNine none none).2 atFortyNine.rate ≠
        oneSample.samples := by
  have hone : (oneSample.window (ofNat 0 / 49) (ofNat 1 / 49) 49).length = 0 := by
    decide +kernel
  have hwhole : (oneSample.window (CommandLine.segmentBounds oneSample atFortyNine none none).1
      (CommandLine.segmentBounds oneSample atFortyNine none none).2
      atFortyNine.rate).length = 0 := by
    decide +kernel
  refine ⟨by rfl, fun h => ?_, fun h => ?_⟩
  · rw [h] at hone
    cases hone
  · rw [h] at hwhole
    cases hwhole

end Recording

end EnergyProfile
