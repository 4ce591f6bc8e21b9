import EnergyProfile.Proofs.Double.Magnitude

/-!
# Doubles on a line

Doubles that are numbers stand on a line, with the infinities at the two ends of the range. They
compare as their positions do. Rounding moves no number past another one, and what would be rounded
to beyond an end stands at that end, so a positive factor keeps the order of all numbers. Nothing is
said of a double that is no number.
-/

namespace EnergyProfile

set_option autoImplicit false

open Float.Model

namespace Double

variable {x y z : Float}

/-- Where a double stands: at the number it stands for, or at an end of the range. -/
noncomputable def position : Double → ℝ
  | infinite negative => if negative then -2 ^ 1024 else 2 ^ 1024
  | d => d.toReal

theorem abs_position_infinite (n : Bool) : |(infinite n).position| = 2 ^ 1024 := by
  have hhuge : (0 : ℝ) ≤ 2 ^ 1024 := by positivity
  cases n <;> simp [position, abs_of_nonneg hhuge]

theorem position_of_isFinite (hx : x.isFinite) :
    (ofFloat x).position = (ofFloat x).toReal ∧ |(ofFloat x).position| < 2 ^ 1024 := by
  obtain ⟨n, m, e, hread⟩ := isFinite_iff.mp hx
  have hposition : (ofFloat x).position = (ofFloat x).toReal := by
    rw [hread]
    rfl
  refine ⟨hposition, ?_⟩
  rw [hposition, hread, abs_toReal_finite]
  exact (Fits.ofFloat hread).lt_huge

theorem abs_position_le (x : Float) : |(ofFloat x).position| ≤ 2 ^ 1024 := by
  cases hread : ofFloat x with
  | nan =>
    have hzero : |nan.position| = 0 := abs_zero
    rw [hzero]
    positivity
  | infinite n => exact (abs_position_infinite n).le
  | finite n m e =>
    rw [← hread]
    exact (position_of_isFinite (isFinite_iff.mpr ⟨n, m, e, hread⟩)).2.le

theorem eq_infinite_of_position {n : Bool} (h : (ofFloat x).position = (infinite n).position) :
    ofFloat x = infinite n := by
  have hend : |(ofFloat x).position| = 2 ^ 1024 := h ▸ abs_position_infinite n
  have hhuge : (0 : ℝ) < 2 ^ 1024 := by positivity
  cases hread : ofFloat x with
  | nan =>
    rw [hread] at hend
    exact absurd (hend.symm.trans abs_zero) hhuge.ne'
  | infinite n' =>
    rw [hread] at h
    have hapart := (neg_lt_self hhuge).ne
    cases n <;> cases n' <;> first | rfl | exact absurd h hapart | exact absurd h.symm hapart
  | finite n' m e =>
    exact absurd hend (position_of_isFinite (isFinite_iff.mpr ⟨n', m, e, hread⟩)).2.ne

theorem ne_nan_of_le (h : x ≤ y) : ofFloat x ≠ nan ∧ ofFloat y ≠ nan := by
  change decide (x.toModel ≤ y.toModel) = true at h
  rw [decide_eq_true_iff] at h
  change (x.toModel.unpack.compare y.toModel.unpack).any (·.isLE) = true at h
  constructor
  · intro hx
    rw [unpack_of_nan hx] at h
    revert h
    cases y.toModel.unpack <;> simp [UnpackedFloat.compare]
  · intro hy
    rw [unpack_of_nan hy] at h
    revert h
    cases x.toModel.unpack <;> simp [UnpackedFloat.compare]

theorem infinite_lt (hx : ofFloat x = infinite true) (hy : y.isFinite) : x < y := by
  obtain ⟨s, hs, hsign⟩ := unpack_of_infinite hx
  obtain rfl : s = .negative := sign_inj hsign
  rw [Float.isFinite, Float.Model.isFinite] at hy
  rw [lt_iff, hs]
  cases hu : y.toModel.unpack <;> simp_all [UnpackedFloat.isFinite, UnpackedFloat.compare]

theorem infinite_lt_infinite (hx : ofFloat x = infinite true) (hy : ofFloat y = infinite false) :
    x < y := by
  obtain ⟨s, hs, hsign⟩ := unpack_of_infinite hx
  obtain ⟨t, ht, hsign'⟩ := unpack_of_infinite hy
  obtain rfl : s = .negative := sign_inj hsign
  obtain rfl : t = .positive := sign_inj hsign'
  rw [lt_iff, hs, ht]
  rfl

theorem isFinite_or_infinite (h : ofFloat x ≠ nan) :
    x.isFinite ∨ ofFloat x = infinite true ∨ ofFloat x = infinite false := by
  by_cases hfinite : x.isFinite
  · exact Or.inl hfinite
  · obtain ⟨n, hread⟩ := (not_isFinite_iff.mp (by simpa using hfinite)).resolve_left h
    cases n with
    | true => exact Or.inr (Or.inl hread)
    | false => exact Or.inr (Or.inr hread)

theorem lt_of_position_lt (hx : ofFloat x ≠ nan) (hy : ofFloat y ≠ nan)
    (h : (ofFloat x).position < (ofFloat y).position) : x < y := by
  obtain ⟨hxlow, hxhigh⟩ := abs_le.mp (abs_position_le x)
  obtain ⟨hylow, hyhigh⟩ := abs_le.mp (abs_position_le y)
  rcases isFinite_or_infinite hx with hxfinite | hxread | hxread
  · rcases isFinite_or_infinite hy with hyfinite | hyread | hyread
    · rw [(position_of_isFinite hxfinite).1, (position_of_isFinite hyfinite).1] at h
      exact (lt_iff_toReal hxfinite hyfinite).mpr h
    · rw [hyread] at h
      exact absurd h (not_lt.mpr hxlow)
    · exact lt_infinite hxfinite hyread
  · rcases isFinite_or_infinite hy with hyfinite | hyread | hyread
    · exact infinite_lt hxread hyfinite
    · rw [hxread, hyread] at h
      exact absurd h (lt_irrefl _)
    · exact infinite_lt_infinite hxread hyread
  · rw [hxread] at h
    exact absurd h (not_lt.mpr hyhigh)

theorem position_le_of_le (h : x ≤ y) : (ofFloat x).position ≤ (ofFloat y).position := by
  obtain ⟨hx, hy⟩ := ne_nan_of_le h
  by_contra hlt
  exact not_lt_of_le h (lt_of_position_lt hy hx (not_le.mp hlt))

theorem isFinite_or_infinite_of_le (h : x ≤ y) :
    ofFloat x = infinite true ∨ ofFloat y = infinite false ∨ x.isFinite ∧ y.isFinite := by
  have hle := position_le_of_le h
  obtain ⟨hx, hy⟩ := ne_nan_of_le h
  rcases isFinite_or_infinite hx with hxfinite | hxread | hxread
  · rcases isFinite_or_infinite hy with hyfinite | hyread | hyread
    · exact Or.inr (Or.inr ⟨hxfinite, hyfinite⟩)
    · rw [hyread] at hle
      exact Or.inl (eq_infinite_of_position (le_antisymm hle (abs_le.mp (abs_position_le x)).1))
    · exact Or.inr (Or.inl hyread)
  · exact Or.inl hxread
  · rw [hxread] at hle
    apply Or.inr ∘ Or.inl
    exact eq_infinite_of_position (le_antisymm (abs_le.mp (abs_position_le y)).2 hle)

theorem nearest_mono {s t : ℝ} (h : s ≤ t) : nearest s ≤ nearest t := by
  have hs := rounded_nonneg (abs_nonneg s)
  have ht := rounded_nonneg (abs_nonneg t)
  unfold nearest
  split
  · rename_i hsneg
    split
    · rename_i htneg
      have hmagnitude : |t| ≤ |s| := by
        rw [abs_of_neg hsneg, abs_of_neg htneg]
        linarith
      exact neg_le_neg (rounded_mono (abs_nonneg t) hmagnitude)
    · linarith
  · rename_i hspos
    have hspos := not_lt.mp hspos
    have htpos := hspos.trans h
    rw [if_neg (not_lt.mpr htpos)]
    refine rounded_mono (abs_nonneg s) ?_
    rwa [abs_of_nonneg hspos, abs_of_nonneg htpos]

/-- A rounded number stands where it was rounded to, or at the end of the range before that. -/
theorem RoundsTo.position_eq {s : ℝ} (h : RoundsTo s (ofFloat x)) :
    (ofFloat x).position = max (-2 ^ 1024) (min (nearest s) (2 ^ 1024)) := by
  by_cases hx : x.isFinite
  · obtain ⟨hposition, hrange⟩ := position_of_isFinite hx
    obtain ⟨hlow, hhigh⟩ := abs_lt.mp hrange
    rw [hposition, h.toReal_eq hx] at hlow hhigh ⊢
    rw [min_eq_left hhigh.le, max_eq_right hlow.le]
  · obtain ⟨hread, hhuge⟩ := h.eq_infinite hx
    have hpos : (0 : ℝ) ≤ 2 ^ 1024 := by positivity
    rw [hread, nearest]
    split
    · rename_i hneg
      have hlow : -rounded |s| ≤ 2 ^ 1024 :=
        (neg_nonpos.mpr (rounded_nonneg (abs_nonneg s))).trans hpos
      rw [decide_eq_true hneg, min_eq_left hlow, max_eq_left (neg_le_neg hhuge)]
      rfl
    · rename_i hneg
      rw [decide_eq_false hneg, min_eq_right hhuge, max_eq_right (neg_le_self hpos)]
      rfl

theorem infinite_mul_positive {n : Bool} (hx : ofFloat x = infinite n)
    (hz : Positive (ofFloat z)) : ofFloat (x * z) = infinite n := by
  obtain ⟨m, e, hm, hz⟩ := hz
  rw [infinite_mul hx hz hm, Bool.bne_false]

theorem mul_ne_nan (hx : ofFloat x ≠ nan) (hz : Positive (ofFloat z)) : ofFloat (x * z) ≠ nan := by
  rcases isFinite_or_infinite hx with hfinite | hread | hread
  · exact (roundsTo_mul hfinite hz.isFinite).ne_nan
  · simp [infinite_mul_positive hread hz]
  · simp [infinite_mul_positive hread hz]

/-- A positive factor keeps the order. An infinite number stays at its end, where nothing passes. -/
theorem position_mul_le (h : x ≤ y) (hz : Positive (ofFloat z)) :
    (ofFloat (x * z)).position ≤ (ofFloat (y * z)).position := by
  rcases isFinite_or_infinite_of_le h with hread | hread | ⟨hx, hy⟩
  · rw [infinite_mul_positive hread hz]
    exact (abs_le.mp (abs_position_le (y * z))).1
  · rw [infinite_mul_positive hread hz]
    exact (abs_le.mp (abs_position_le (x * z))).2
  · rw [(roundsTo_mul hx hz.isFinite).position_eq, (roundsTo_mul hy hz.isFinite).position_eq]
    have hproduct := nearest_mono
      (mul_le_mul_of_nonneg_right (toReal_le_of_le hx hy h) hz.toReal_pos.le)
    exact max_le_max_left _ (min_le_min_right _ hproduct)

end Double

end EnergyProfile
