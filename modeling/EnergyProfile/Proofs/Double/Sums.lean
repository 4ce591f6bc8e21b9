import EnergyProfile.Proofs.Double.Order

/-!
# Sums of doubles

A sum of finite doubles is the exact one, rounded, and so is a difference. The rounded number is as
close to the exact one as any double is, which bounds what a sum can lose.
-/

namespace EnergyProfile

set_option autoImplicit false

open Float.Model UnpackedFloat

theorem abs_nearestEven_sub_le_abs (x : ℝ) (k : ℤ) : |(nearestEven x : ℝ) - x| ≤ |(k : ℝ) - x| := by
  rcases eq_or_ne k (nearestEven x) with rfl | hne
  · exact le_rfl
  · have hapart : (1 : ℝ) ≤ |(k : ℝ) - nearestEven x| := by
      exact_mod_cast Int.one_le_abs (sub_ne_zero.mpr hne)
    have hhalf := abs_nearestEven_sub_le x
    have htriangle := abs_sub_le (k : ℝ) x (nearestEven x)
    rw [abs_sub_comm x] at htriangle
    linarith

namespace Double

variable {x y z : Float} {n : Bool} {m : Nat} {e : ℤ}

/-- No double is closer to a number than the one it is rounded to. -/
theorem abs_rounded_sub_le_abs {a : ℝ} (ha : 0 ≤ a) (h : Fits m e) :
    |rounded a - a| ≤ |(m : ℝ) * 2 ^ e - a| := by
  rcases ha.eq_or_lt with rfl | hpos
  · rw [rounded_zero, sub_zero, abs_zero]
    exact abs_nonneg _
  have hunit : (0 : ℝ) < 2 ^ unitExponent a := by positivity
  have hmultiple (k : ℤ) : |rounded a - a| ≤ |(k : ℝ) * 2 ^ unitExponent a - a| := by
    have hscale (b : ℝ) : b * 2 ^ unitExponent a - a =
        (b - a / 2 ^ unitExponent a) * 2 ^ unitExponent a := by
      rw [sub_mul, div_mul_cancel₀ _ hunit.ne']
    rw [rounded, hscale, hscale, abs_mul, abs_mul]
    exact mul_le_mul_of_nonneg_right (abs_nearestEven_sub_le_abs _ k) (abs_nonneg _)
  by_cases he : unitExponent a ≤ e
  · have hwhole : (m : ℝ) * 2 ^ e =
        ((m * 2 ^ (e - unitExponent a).toNat : ℤ) : ℝ) * 2 ^ unitExponent a := by
      push_cast
      rw [← zpow_natCast, Int.toNat_of_nonneg (by omega), mul_assoc, ← zpow_add₀ two_ne_zero,
        Int.sub_add_cancel]
    rw [hwhole]
    exact hmultiple _
  · have hmin := h.minExponent_le
    have hrange : (2 : ℝ) ^ (unitExponent a + 52) ≤ a := (unit_le hpos).resolve_right (by omega)
    have hbelow : (m : ℝ) * 2 ^ e ≤ 2 ^ (unitExponent a + 52) := by
      have hlt : (m : ℝ) ≤ 2 ^ (53 : ℤ) := by exact_mod_cast h.significand_lt.le
      calc (m : ℝ) * 2 ^ e ≤ 2 ^ (53 : ℤ) * 2 ^ e := by gcongr
        _ = 2 ^ (e + 53) := by rw [add_comm, zpow_add₀ two_ne_zero]
        _ ≤ 2 ^ (unitExponent a + 52) := zpow_le_zpow_right₀ one_le_two (by omega)
    have hleast : ((2 ^ 52 : ℤ) : ℝ) * 2 ^ unitExponent a = 2 ^ (unitExponent a + 52) := by
      rw [add_comm, zpow_add₀ two_ne_zero]
      norm_num
    have hclose := hmultiple (2 ^ 52)
    rw [hleast, abs_of_nonpos (show 2 ^ (unitExponent a + 52) - a ≤ 0 by linarith)] at hclose
    rw [abs_of_nonpos (show (m : ℝ) * 2 ^ e - a ≤ 0 by linarith)]
    linarith

theorem rounded_of_fits (h : Fits m e) : rounded ((m : ℝ) * 2 ^ e) = m * 2 ^ e := by
  have hclose := abs_rounded_sub_le_abs (show (0 : ℝ) ≤ m * 2 ^ e by positivity) h
  rw [sub_self, abs_zero] at hclose
  exact sub_eq_zero.mp (abs_nonpos_iff.mp hclose)

/-- The number nearest to a real number of either sign among those of the form of a double. -/
noncomputable def nearest (s : ℝ) : ℝ :=
  if s < 0 then -rounded |s| else rounded |s|

theorem abs_nearest_sub (s : ℝ) : |nearest s - s| = |rounded (|s|) - (|s|)| := by
  unfold nearest
  split
  · rename_i hneg
    rw [abs_of_neg hneg, ← abs_neg]
    congr 1
    ring
  · rename_i hpos
    rw [abs_of_nonneg (not_lt.mp hpos)]

theorem abs_nearest_sub_le (s : ℝ) : |nearest s - s| ≤ 2 ^ unitExponent |s| / 2 := by
  rw [abs_nearest_sub]
  exact abs_rounded_sub_le _

theorem abs_nearest_sub_le_abs (s : ℝ) (hx : x.isFinite) :
    |nearest s - s| ≤ |(ofFloat x).toReal - s| := by
  obtain ⟨n, m, e, hread⟩ := isFinite_iff.mp hx
  have hclose := abs_rounded_sub_le_abs (abs_nonneg s) (Fits.ofFloat hread)
  rw [← abs_toReal_finite n, ← hread] at hclose
  rw [abs_nearest_sub]
  exact hclose.trans (abs_abs_sub_abs_le _ _)

theorem nearest_toReal (hx : x.isFinite) : nearest (ofFloat x).toReal = (ofFloat x).toReal := by
  have hclose := abs_nearest_sub_le_abs (ofFloat x).toReal hx
  rw [sub_self, abs_zero] at hclose
  exact sub_eq_zero.mp (abs_nonpos_iff.mp hclose)

/-- A double is a real number rounded, or infinite in its direction. The sign of a zero is left
open. -/
def RoundsTo (s : ℝ) (d : Double) : Prop :=
  ∃ sign, Holds sign (rounded |s|) d ∧ (s ≠ 0 → sign = decide (s < 0))

namespace RoundsTo

variable {s : ℝ}

theorem toReal_eq (h : RoundsTo s (ofFloat x)) (hx : x.isFinite) :
    (ofFloat x).toReal = nearest s := by
  obtain ⟨sign, hholds, hsign⟩ := h
  rw [hholds.toReal_eq hx]
  by_cases hs : s = 0
  · simp [hs, nearest]
  · simp [hsign hs, nearest]

theorem eq_infinite (h : RoundsTo s (ofFloat x)) (hx : ¬ x.isFinite) :
    ofFloat x = infinite (decide (s < 0)) ∧ 2 ^ 1024 ≤ rounded |s| := by
  obtain ⟨sign, hholds, hsign⟩ := h
  have hhuge : 2 ^ 1024 ≤ rounded |s| := not_lt.mp (mt hholds.isFinite_iff.mpr hx)
  have hs : s ≠ 0 := by
    rintro rfl
    rw [abs_zero, rounded_zero] at hhuge
    exact absurd hhuge (not_le.mpr (by positivity))
  refine ⟨?_, hhuge⟩
  rcases not_isFinite_iff.mp (by simpa using hx) with hread | ⟨negative, hread⟩
  · rw [hread] at hholds
    exact hholds.elim
  · rw [hread] at hholds ⊢
    rw [hholds.1, hsign hs]

/-- A rounded number is compared with a finite double as if it could be of any size. -/
theorem lt_iff (h : RoundsTo s (ofFloat x)) (hy : y.isFinite) :
    y < x ↔ (ofFloat y).toReal < nearest s := by
  by_cases hx : x.isFinite
  · rw [lt_iff_toReal hy hx, h.toReal_eq hx]
  · obtain ⟨hread, hhuge⟩ := h.eq_infinite hx
    obtain ⟨n, m, e, hready⟩ := isFinite_iff.mp hy
    have hlimit : |(ofFloat y).toReal| < 2 ^ 1024 := by
      rw [hready, abs_toReal_finite]
      exact (Fits.ofFloat hready).lt_huge
    obtain ⟨hlow, hhigh⟩ := abs_lt.mp hlimit
    unfold nearest
    split
    · rename_i hneg
      rw [decide_eq_true hneg] at hread
      exact iff_of_false (not_lt_infinite hy hread)
        (not_lt.mpr ((neg_le_neg hhuge).trans hlow.le))
    · rename_i hpos
      rw [decide_eq_false hpos] at hread
      exact iff_of_true (lt_infinite hy hread) (hhigh.trans_le hhuge)

end RoundsTo

theorem toReal_apply (s : Sign) (m : Nat) (e : ℤ) :
    (finite (s == .negative) m e).toReal = (s.apply m : ℤ) * 2 ^ e := by
  cases s with
  | negative => rw [toReal_negative]; simp [Sign.apply]
  | positive => rw [toReal_positive]; simp [Sign.apply]

theorem roundsTo_zero (s : Sign) : RoundsTo 0 (ofFloat (.ofModel (.pack (.zero s)))) := by
  refine ⟨s == .negative, ?_, by simp⟩
  rw [ofFloat_zero, abs_zero, rounded_zero]
  exact ⟨rfl, by simp, by positivity⟩

theorem Holds.roundsTo {a : ℝ} {d : Double} (ha : 0 < a) (h : Holds n (rounded a) d) :
    RoundsTo (if n then -a else a) d := by
  refine ⟨n, ?_, fun _ => ?_⟩
  · cases n <;> simpa [abs_of_pos ha] using h
  · cases n with
    | false => simpa using ha.le
    | true => simpa using ha

theorem roundsTo_normalize (k : ℤ) (e : ℤ) : RoundsTo (k * 2 ^ e)
    (ofFloat (.ofModel (.pack (UnpackedFloat.normalize Format.binary64 k e .positive)))) := by
  have hunit : (0 : ℝ) < 2 ^ e := by positivity
  unfold UnpackedFloat.normalize
  rcases lt_trichotomy k 0 with hneg | rfl | hpos
  · rw [Int.compare_eq_lt.mpr hneg]
    have hk : ((-k).toNat : ℝ) = -k := by exact_mod_cast Int.toNat_of_nonneg (by omega : 0 ≤ -k)
    have hround := holds_round .negative (m := (-k).toNat) (by omega) e
    rw [hk] at hround
    have hsum := Holds.roundsTo (n := true)
      (mul_pos (neg_pos.mpr (Int.cast_lt_zero.mpr hneg)) hunit) hround
    rwa [if_pos rfl, neg_mul, neg_neg] at hsum
  · rw [Int.compare_eq_eq.mpr rfl, Int.cast_zero, zero_mul]
    exact roundsTo_zero _
  · rw [Int.compare_eq_gt.mpr hpos]
    have hk : (k.toNat : ℝ) = k := by exact_mod_cast Int.toNat_of_nonneg hpos.le
    have hround := holds_round .positive (m := k.toNat) (by omega) e
    rw [hk] at hround
    exact Holds.roundsTo (n := false) (mul_pos (Int.cast_pos.mpr hpos) hunit) hround

/-- An unpacked number as a word of a finite double holds it. -/
def OfWord (u : UnpackedFloat) : Prop :=
  (∃ s, u = .zero s) ∨ ∃ s m e hm, u = .finite s m e hm ∧ Fits m e

theorem ofWord_unpack (hx : x.isFinite) : OfWord x.toModel.unpack := by
  obtain ⟨n, m, e, hread⟩ := isFinite_iff.mp hx
  rcases unpack_of_finite hread with ⟨s, hu, -, -⟩ | ⟨s, hm, hu, -⟩
  · exact .inl ⟨s, hu⟩
  · exact .inr ⟨s, m, e, hm, hu, Fits.ofFloat hread⟩

theorem roundsTo_pack {u : UnpackedFloat} (h : OfWord u) :
    RoundsTo (ofUnpacked u).toReal (ofFloat (.ofModel (.pack u))) := by
  rcases h with ⟨s, rfl⟩ | ⟨s, m, e, hm, rfl, hfits⟩
  · rw [ofUnpacked, toReal_zero]
    exact roundsTo_zero s
  · rw [ofFloat_finite s hm hfits, ofUnpacked, toReal_finite]
    refine Holds.roundsTo (by positivity) ?_
    rw [rounded_of_fits hfits]
    exact ⟨rfl, rfl, hfits.lt_huge⟩

theorem apply_shift (s : Sign) (m : Nat) {e t : ℤ} (h : t ≤ e) :
    ((s.apply (m <<< (e - t).toNat : ℕ) : ℤ) : ℝ) * 2 ^ t =
      (finite (s == .negative) m e).toReal := by
  have hscale : (m <<< (e - t).toNat : ℕ) * (2 : ℝ) ^ t = m * 2 ^ e := by
    rw [Nat.shiftLeft_eq]
    push_cast
    rw [← zpow_natCast, Int.toNat_of_nonneg (by omega), mul_assoc, ← zpow_add₀ two_ne_zero,
      Int.sub_add_cancel]
  rw [toReal_apply]
  cases s with
  | negative =>
    simp only [Sign.apply, Int.cast_neg, Int.cast_natCast, neg_mul, hscale]
  | positive => simpa only [Sign.apply, Int.cast_natCast] using hscale

theorem roundsTo_add_unpacked {u v : UnpackedFloat} (hu : OfWord u) (hv : OfWord v) :
    RoundsTo ((ofUnpacked u).toReal + (ofUnpacked v).toReal)
      (ofFloat (.ofModel (.pack (UnpackedFloat.add Format.binary64 u v)))) := by
  have hpacku := roundsTo_pack hu
  have hpackv := roundsTo_pack hv
  rcases hu with ⟨s, rfl⟩ | ⟨s, m, e, hm, rfl, -⟩ <;>
    rcases hv with ⟨t, rfl⟩ | ⟨t, m', e', hm', rfl, -⟩
  · simp only [ofUnpacked, toReal_zero, add_zero, UnpackedFloat.add]
    split <;> exact roundsTo_zero _
  · simpa only [ofUnpacked, toReal_zero, zero_add, UnpackedFloat.add] using hpackv
  · simpa only [ofUnpacked, toReal_zero, add_zero, UnpackedFloat.add] using hpacku
  · have h := roundsTo_normalize
      (s.apply (m <<< (e - min e e').toNat : ℕ) + t.apply (m' <<< (e' - min e e').toNat : ℕ))
      (min e e')
    rw [Int.cast_add, add_mul, apply_shift s m (min_le_left _ _),
      apply_shift t m' (min_le_right _ _)] at h
    exact h

theorem roundsTo_add (hx : x.isFinite) (hy : y.isFinite) :
    RoundsTo ((ofFloat x).toReal + (ofFloat y).toReal) (ofFloat (x + y)) := by
  rw [add_eq, ofFloat_eq x, ofFloat_eq y]
  exact roundsTo_add_unpacked (ofWord_unpack hx) (ofWord_unpack hy)

theorem neg_beq_negative (s : Sign) : (-s == .negative) = !(s == .negative) := by
  cases s <;> rfl

theorem sub_eq_add_neg_unpacked (f : Format) (u v : UnpackedFloat) :
    UnpackedFloat.sub f u v = UnpackedFloat.add f u v.neg := by
  cases u <;> cases v <;> try rfl
  rename_i s m e hm t m' e' hm'
  cases t with
  | positive => rfl
  | negative =>
    simp only [UnpackedFloat.sub, UnpackedFloat.add, UnpackedFloat.neg]
    rw [Sign.apply.eq_1, sub_neg_eq_add]
    rfl

theorem roundsTo_sub (hx : x.isFinite) (hy : y.isFinite) :
    RoundsTo ((ofFloat x).toReal - (ofFloat y).toReal) (ofFloat (x - y)) := by
  have hneg : OfWord y.toModel.unpack.neg ∧
      (ofUnpacked y.toModel.unpack.neg).toReal = -(ofUnpacked y.toModel.unpack).toReal := by
    rcases ofWord_unpack hy with ⟨s, hu⟩ | ⟨s, m, e, hm, hu, hfits⟩ <;> rw [hu]
    · exact ⟨.inl ⟨-s, rfl⟩, by simp [UnpackedFloat.neg, ofUnpacked, toReal_zero]⟩
    · refine ⟨.inr ⟨-s, m, e, hm, rfl, hfits⟩, ?_⟩
      simp only [UnpackedFloat.neg, ofUnpacked, neg_beq_negative, toReal_finite]
      cases (s == .negative) <;> simp
  rw [sub_eq, sub_eq_add_neg_unpacked, ofFloat_eq x, ofFloat_eq y, sub_eq_add_neg, ← hneg.2]
  exact roundsTo_add_unpacked (ofWord_unpack hx) hneg.1

theorem infinite_sub (hx : ofFloat x = infinite n) (hy : y.isFinite) :
    ofFloat (x - y) = infinite n := by
  obtain ⟨s, hs, rfl⟩ := unpack_of_infinite hx
  rw [sub_eq, hs]
  rcases ofWord_unpack hy with ⟨t, hu⟩ | ⟨t, m, e, hm, hu, -⟩ <;> rw [hu] <;>
    exact ofFloat_infinity s

end Double

end EnergyProfile
