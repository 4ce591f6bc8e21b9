import EnergyProfile.Proofs.Double.Magnitude
import EnergyProfile.Statistics

/-!
# Sums and spreads that are lost

A sum of doubles is no number from the first value on that is none or meets an infinite sum of the
other sign. A spread is no number if at one of the values the multiple of it and the sum meet as like
infinities, or are none. Neither happens to finite values that are not huge, and a single value that
is not finite is enough to lose the spread of several.
-/

namespace EnergyProfile

set_option autoImplicit false

open Double

/-- Some value is no number, or it is infinite and the sum before it is so with the other sign. -/
def SumLost (xs : List Float) : Prop :=
  ∃ before x after, xs = before ++ x :: after ∧ (ofFloat x = nan ∨
    ∃ negative, ofFloat (Scalar.sum before) = infinite negative ∧ ofFloat x = infinite (!negative))

theorem sumLost_concat_iff (xs : List Float) (x : Float) : SumLost (xs ++ [x]) ↔
    SumLost xs ∨ ofFloat x = nan ∨
      ∃ negative, ofFloat (Scalar.sum xs) = infinite negative ∧ ofFloat x = infinite (!negative) := by
  constructor
  · rintro ⟨before, y, after, hsplit, hlost⟩
    rcases List.eq_nil_or_concat after with rfl | ⟨after, z, rfl⟩
    · obtain ⟨rfl, hlast⟩ := List.append_inj' hsplit rfl
      obtain rfl := List.head_eq_of_cons_eq hlast
      exact .inr hlost
    · have hinit : xs = before ++ y :: after := by
        have hsplit : xs ++ [x] = (before ++ y :: after) ++ [z] := by simpa using hsplit
        exact (List.append_inj' hsplit rfl).1
      exact .inl ⟨before, y, after, hinit, hlost⟩
  · rintro (⟨before, y, after, rfl, hlost⟩ | hlost)
    · exact ⟨before, y, after ++ [x], by simp, hlost⟩
    · exact ⟨xs, x, [], rfl, hlost⟩

theorem sum_eq_nan_iff (xs : List Float) : ofFloat (Scalar.sum xs) = nan ↔ SumLost xs := by
  induction xs using List.reverseRecOn with
  | nil =>
    refine iff_of_false (by decide +kernel) ?_
    rintro ⟨before, x, after, hsplit, -⟩
    simp at hsplit
  | append_singleton xs x ih => rw [Scalar.sum_concat, sumLost_concat_iff, add_eq_nan_iff, ih]

theorem not_sumLost_of_finite {xs : List Float} (h : ∀ x ∈ xs, x.isFinite) : ¬ SumLost xs := by
  rintro ⟨before, x, after, rfl, hlost⟩
  obtain ⟨n, m, e, hx⟩ := isFinite_iff.mp (h x (by simp))
  rw [hx] at hlost
  rcases hlost with hlost | ⟨_, _, hlost⟩ <;> cases hlost

namespace Stat

theorem positive_ofNat {k : Nat} (hpos : 0 < k) (hk : k ≤ maxSize) :
    Positive (ofFloat (Scalar.ofNat k)) := by
  obtain ⟨hfinite, -, hlow⟩ := ofNat_of_le_maxSize hk
  have hone := hlow 1 (by decide) hpos
  rw [Nat.cast_one] at hone
  exact positive_of_toReal hfinite (zero_lt_one.trans_le hone)

theorem ofNat_sub_one {k : Nat} (hk2 : 2 ≤ k) (hk : k ≤ maxSize) :
    RoundsTo ((ofFloat (Float.ofNat k)).toReal - 1)
        (ofFloat (Scalar.ofNat k - Scalar.ofNat 1 : Float)) ∧
      1 ≤ (ofFloat (Float.ofNat k)).toReal - 1 ∧
      (ofFloat (Float.ofNat k)).toReal - 1 ≤ 2 ^ 64 := by
  obtain ⟨hfinite, hhigh, hlow⟩ := ofNat_of_le_maxSize hk
  have htwo := hlow 2 (by decide) hk2
  have hone : (ofFloat (Float.ofNat 1)).toReal = 1 := by
    rw [toReal_ofNat (by decide), Nat.cast_one]
  have hsub := roundsTo_sub hfinite (ofNat_of_le_maxSize (k := 1) (by decide)).1
  rw [hone] at hsub
  push_cast at htwo
  exact ⟨hsub, by linarith, by linarith⟩

theorem positive_ofNat_sub_one {k : Nat} (hk2 : 2 ≤ k) (hk : k ≤ maxSize) :
    Positive (ofFloat (Scalar.ofNat k - Scalar.ofNat 1 : Float)) := by
  obtain ⟨hsub, hlow, hhigh⟩ := ofNat_sub_one hk2 hk
  obtain ⟨hfinite, hone, -⟩ := hsub.one_le hlow hhigh (by decide)
  exact positive_of_toReal hfinite (zero_lt_one.trans_le hone)

theorem positive_divisor {k : Nat} (hk2 : 2 ≤ k) (hk : k ≤ maxSize) : Positive
    (ofFloat (Scalar.ofNat k * (Scalar.ofNat k - Scalar.ofNat 1) : Float)) := by
  obtain ⟨hfinite, hhigh, hlow⟩ := ofNat_of_le_maxSize hk
  have hone := hlow 1 (by decide) (by omega)
  rw [Nat.cast_one] at hone
  obtain ⟨hsub, hsublow, hsubhigh⟩ := ofNat_sub_one hk2 hk
  obtain ⟨hsubfinite, hsublow, hsubhigh⟩ := hsub.one_le hsublow hsubhigh (by decide)
  have hproduct := roundsTo_mul hfinite hsubfinite
  have hle : (ofFloat (Float.ofNat k)).toReal *
      (ofFloat (Scalar.ofNat k - Scalar.ofNat 1 : Float)).toReal ≤ 2 ^ 128 := by
    calc _ ≤ (2 : ℝ) ^ 64 * 2 ^ 64 :=
          mul_le_mul hhigh hsubhigh (zero_le_one.trans hsublow) (by positivity)
      _ = 2 ^ 128 := by norm_num
  obtain ⟨hproductFinite, hlow, -⟩ :=
    hproduct.one_le (one_le_mul_of_one_le_of_one_le hone hsublow) hle (by decide)
  exact positive_of_toReal hproductFinite (zero_lt_one.trans_le hlow)

/-- What is squared when a value is added to the deviations. -/
def Deviations.difference (d : Deviations Float) (y : Float) : Float :=
  Scalar.ofNat (d.count + 1) * y - (d.sum + y)

variable {d : Deviations Float} {y : Float}

theorem squares_step (d : Deviations Float) (y : Float) : (d.step y).squares =
    d.squares + d.difference y * d.difference y /
      (Scalar.ofNat (d.count + 1) * (Scalar.ofNat (d.count + 1) - Scalar.ofNat 1)) := rfl

theorem squares_step_of_lost (h : ofFloat (d.difference y) = nan) :
    ofFloat (d.step y).squares = nan := by
  rw [squares_step]
  exact add_nan (nan_div (nan_mul h))

theorem unsigned_squares_step (hsquares : Unsigned (ofFloat d.squares)) (hcount : 1 ≤ d.count)
    (hsize : d.count + 1 ≤ maxSize) (h : ofFloat (d.difference y) ≠ nan) :
    Unsigned (ofFloat (d.step y).squares) := by
  rw [squares_step]
  exact unsigned_add hsquares
    (unsigned_div (unsigned_mul_self h) (positive_divisor (by omega) hsize))

theorem squares_foldl_of_nan (h : ofFloat d.squares = nan) (ys : List Float) :
    ofFloat (ys.foldl Deviations.step d).squares = nan := by
  induction ys generalizing d with
  | nil => exact h
  | cons y ys ih =>
    apply ih
    rw [squares_step]
    exact nan_add h

theorem squares_foldl (ys : List Float) (hsquares : Unsigned (ofFloat d.squares))
    (hcount : 1 ≤ d.count) (hsize : d.count + ys.length ≤ maxSize) :
    (∃ before y after, ys = before ++ y :: after ∧
        ofFloat ((before.foldl Deviations.step d).difference y) = nan) ∧
      ofFloat (ys.foldl Deviations.step d).squares = nan ∨
    (∀ before y after, ys = before ++ y :: after →
        ofFloat ((before.foldl Deviations.step d).difference y) ≠ nan) ∧
      Unsigned (ofFloat (ys.foldl Deviations.step d).squares) := by
  induction ys generalizing d with
  | nil =>
    refine .inr ⟨fun before y after hsplit => ?_, hsquares⟩
    simp at hsplit
  | cons y ys ih =>
    rw [List.length_cons] at hsize
    by_cases hlost : ofFloat (d.difference y) = nan
    · exact .inl ⟨⟨[], y, ys, rfl, hlost⟩, squares_foldl_of_nan (squares_step_of_lost hlost) ys⟩
    have hstep := unsigned_squares_step hsquares hcount (by omega) hlost
    have hcount' : (d.step y).count = d.count + 1 := rfl
    rcases ih hstep (by omega) (by omega) with ⟨⟨before, z, after, rfl, hz⟩, hnan⟩ | ⟨hkept, hend⟩
    · exact .inl ⟨⟨y :: before, z, after, rfl, hz⟩, hnan⟩
    · refine .inr ⟨fun before z after hsplit => ?_, hend⟩
      cases before with
      | nil =>
        obtain ⟨rfl, -⟩ := List.cons_eq_cons.mp hsplit
        exact hlost
      | cons _ before =>
        obtain ⟨rfl, hrest⟩ := List.cons_eq_cons.mp hsplit
        exact hkept before z after hrest

theorem count_foldl (d : Deviations Float) (ys : List Float) :
    (ys.foldl Deviations.step d).count = d.count + ys.length := by
  induction ys generalizing d with
  | nil => rfl
  | cons y ys ih =>
    rw [List.foldl_cons, ih, List.length_cons]
    change d.count + 1 + ys.length = _
    omega

theorem sum_foldl (d : Deviations Float) (ys : List Float) :
    (ys.foldl Deviations.step d).sum = ys.foldl (· + ·) d.sum := by
  induction ys generalizing d with
  | nil => rfl
  | cons y ys ih => exact ih (d.step y)

end Stat

/-- At some value after the first, what is squared for the spread is no number. -/
def SpreadLost (ys : List Float) : Prop :=
  ∃ first before y after, ys = first :: (before ++ y :: after) ∧
    ofFloat (Scalar.ofNat (before.length + 2) * y - (before.foldl (· + ·) first + y)) = nan

theorem spreadLost_cons_iff (first : Float) (ys : List Float) : SpreadLost (first :: ys) ↔
    ∃ before y after, ys = before ++ y :: after ∧ ofFloat
      ((before.foldl Stat.Deviations.step ⟨first, Scalar.ofNat 0, 1⟩).difference y) = nan := by
  have hdifference (before : List Float) (y : Float) :
      (before.foldl Stat.Deviations.step ⟨first, Scalar.ofNat 0, 1⟩).difference y =
        Scalar.ofNat (before.length + 2) * y - (before.foldl (· + ·) first + y) := by
    rw [Stat.Deviations.difference, Stat.count_foldl, Stat.sum_foldl,
      show 1 + before.length + 1 = before.length + 2 by omega]
  constructor
  · rintro ⟨_, before, y, after, hsplit, hlost⟩
    obtain ⟨rfl, hrest⟩ := List.cons_eq_cons.mp hsplit
    exact ⟨before, y, after, hrest, (congrArg ofFloat (hdifference before y)).trans hlost⟩
  · rintro ⟨before, y, after, rfl, hlost⟩
    exact ⟨first, before, y, after, rfl, (congrArg ofFloat (hdifference before y)).symm.trans hlost⟩

theorem spreadOf_eq_nan_iff {ys : List Float} (htwo : 2 ≤ ys.length) (hsize : ys.length ≤ maxSize) :
    ofFloat (Stat.spreadOf ys) = nan ↔ SpreadLost ys := by
  obtain _ | ⟨first, _ | ⟨second, rest⟩⟩ := ys
  · simp at htwo
  · simp at htwo
  rw [spreadLost_cons_iff]
  have hunsigned : Unsigned (ofFloat (Scalar.ofNat 0)) := .inr ⟨_, _, ofFloat_zero_eq⟩
  have hcount := Stat.count_foldl ⟨first, Scalar.ofNat 0, 1⟩ (second :: rest)
  have hspread : Stat.spreadOf (first :: second :: rest) = Float.sqrt
      (((second :: rest).foldl Stat.Deviations.step ⟨first, Scalar.ofNat 0, 1⟩).squares /
        (Scalar.ofNat (first :: second :: rest).length - Scalar.ofNat 1)) := by
    rw [List.length_cons, Nat.add_comm, ← hcount]
    rfl
  rw [hspread]
  rw [List.length_cons, Nat.add_comm] at hsize
  have hrun := Stat.squares_foldl (d := ⟨first, Scalar.ofNat 0, 1⟩) (second :: rest) hunsigned
    (Nat.le_refl 1) hsize
  rcases hrun with ⟨hlost, hnan⟩ | ⟨hkept, hend⟩
  · exact iff_of_true (sqrt_nan (nan_div hnan)) hlost
  · refine iff_of_false (sqrt_ne_nan (unsigned_div hend ?_)) ?_
    · exact Stat.positive_ofNat_sub_one htwo (by rwa [List.length_cons, Nat.add_comm])
    · rintro ⟨before, y, after, hsplit, hlost⟩
      exact hkept before y after hsplit hlost

theorem sub_not_isFinite {x y : Float} (hx : x.isFinite = false) (hy : y.isFinite) :
    (x - y).isFinite = false := by
  rw [not_isFinite_iff]
  rcases not_isFinite_iff.mp hx with hx | ⟨n, hx⟩
  · exact .inl (nan_sub hx)
  · exact .inr ⟨n, infinite_sub hx hy⟩

namespace Stat

theorem meanStep_not_isFinite {m : Float × Nat} {x : Float} (hsize : m.2 + 1 ≤ maxSize)
    (h : m.1.isFinite = false ∨ x.isFinite = false) : (meanStep m x).1.isFinite = false := by
  change (m.1 + (x - m.1) / Scalar.ofNat (m.2 + 1)).isFinite = false
  by_cases hm : m.1.isFinite = true
  · have hsub := sub_not_isFinite (h.resolve_left (ne_false_of_eq_true hm)) hm
    apply add_not_isFinite
    have hquotient := div_positive_of_not_isFinite hsub (positive_ofNat (Nat.succ_pos m.2) hsize)
    rw [not_isFinite_iff, hquotient]
    exact not_isFinite_iff.mp hsub
  · have hm := eq_false_of_ne_true hm
    rw [not_isFinite_iff]
    rcases add_of_not_isFinite (y := (x - m.1) / Scalar.ofNat (m.2 + 1)) hm with hsame | hnan
    · rw [hsame]
      exact not_isFinite_iff.mp hm
    · exact .inl hnan

theorem foldl_meanStep_not_isFinite (xs : List Float) {m : Float × Nat}
    (hsize : m.2 + xs.length ≤ maxSize) (h : m.1.isFinite = false ∨ ∃ x ∈ xs, x.isFinite = false) :
    (xs.foldl meanStep m).1.isFinite = false := by
  induction xs generalizing m with
  | nil =>
    rcases h with h | ⟨x, hx, _⟩
    · exact h
    · cases hx
  | cons x xs ih =>
    rw [List.length_cons] at hsize
    have hcount : (meanStep m x).2 = m.2 + 1 := rfl
    refine ih (by omega) ?_
    rcases h with h | ⟨y, hy, h⟩
    · exact .inl (meanStep_not_isFinite (by omega) (.inl h))
    · rcases List.mem_cons.mp hy with rfl | hy
      · exact .inl (meanStep_not_isFinite (by omega) (.inr h))
      · exact .inr ⟨y, hy, h⟩

theorem meanOf_not_isFinite {xs : List Float} (hsize : xs.length ≤ maxSize)
    (h : ∃ x ∈ xs, x.isFinite = false) : (meanOf xs).isFinite = false := by
  have hne : xs ≠ [] := by
    rintro rfl
    simp at h
  rw [meanOf, if_neg hne]
  exact foldl_meanStep_not_isFinite xs (by simpa using hsize) (.inr h)

end Stat

theorem exists_sub_of_not_isFinite {mean : Float} (h : mean.isFinite = false) :
    ∃ n, ∀ x : Float, ofFloat (x - mean) = nan ∨ ofFloat (x - mean) = infinite n := by
  rcases not_isFinite_iff.mp h with h | ⟨n, h⟩
  · exact ⟨true, fun x => .inl (sub_nan h)⟩
  · refine ⟨!n, fun x => ?_⟩
    cases hx : ofFloat x with
    | nan => exact .inl (nan_sub hx)
    | infinite n' =>
      rw [sub_infinite hx h]
      cases n <;> cases n' <;> simp
    | finite n' m e => exact .inr (finite_sub_infinite hx h)

theorem spreadLost_of_not_isFinite {xs : List Float} {mean : Float} (htwo : 2 ≤ xs.length)
    (h : mean.isFinite = false) : SpreadLost (xs.map (· - mean)) := by
  obtain _ | ⟨x, _ | ⟨y, rest⟩⟩ := xs
  · simp at htwo
  · simp at htwo
  obtain ⟨n, hside⟩ := exists_sub_of_not_isFinite h
  refine ⟨x - mean, [], y - mean, rest.map (· - mean), rfl, ?_⟩
  change ofFloat (Scalar.ofNat 2 * (y - mean) - (x - mean + (y - mean))) = nan
  rw [sub_eq_nan_iff, add_eq_nan_iff]
  rcases hside y with hy | hy
  · exact .inl (mul_nan hy)
  rcases hside x with hx | hx
  · exact .inr (.inl (.inl hx))
  · refine .inr (.inr ⟨n, ?_, ?_⟩)
    · exact positive_mul_infinite (Stat.positive_ofNat (by decide) (by decide)) hy
    · rw [infinite_add hx hy, if_pos rfl]

/-- A magnitude far from overflow. -/
noncomputable def wide : ℝ := 2 ^ 900

theorem wide_pos : 0 < wide := by
  unfold wide
  positivity

theorem lt_huge_of_le_wide {a : ℝ} (h : a ≤ 2 ^ 100 * wide) : a < 2 ^ 1024 := by
  refine h.trans_lt ?_
  rw [wide, ← pow_add]
  exact pow_lt_pow_right₀ one_lt_two (by decide)

theorem rounded_wide : rounded wide = wide := rounded_two_pow (by decide)

theorem rounded_two_wide : rounded (2 * wide) = 2 * wide := by
  rw [wide, ← pow_succ']
  exact rounded_two_pow (by decide)

theorem rounded_three_wide : rounded (3 * wide) = 3 * wide := rounded_three_two_pow (by decide)

theorem rounded_half_three_wide : rounded (3 * wide / 2) = 3 * wide / 2 := by
  have hhalf : 3 * wide / 2 = 3 * 2 ^ 899 := by
    rw [wide, pow_succ 2 899, mul_div_assoc, mul_div_cancel_right₀ _ two_ne_zero]
  rw [hhalf]
  exact rounded_three_two_pow (by decide)

/-- A finite double that is far from overflow. -/
def Ordinary (x : Float) : Prop := x.isFinite ∧ |(ofFloat x).toReal| ≤ wide

theorem ordinary_ofNat {k : Nat} (hk : k ≤ maxSize) : Ordinary (Float.ofNat k) := by
  obtain ⟨hfinite, hhigh, hlow⟩ := ofNat_of_le_maxSize hk
  have hnonneg := hlow 0 (by decide) (Nat.zero_le k)
  rw [Nat.cast_zero] at hnonneg
  refine ⟨hfinite, ?_⟩
  rw [abs_of_nonneg hnonneg]
  exact hhigh.trans (pow_le_pow_right₀ one_le_two (by decide))

namespace Stat

/-- A mean stays within twice the bound of the values. Before the first value it is zero. -/
structure Settled (m : Float × Nat) : Prop where
  finite : m.1.isFinite
  bounded : |(ofFloat m.1).toReal| ≤ 2 * wide
  start : m.2 = 0 → (ofFloat m.1).toReal = 0

theorem abs_div_le {a b c : ℝ} (ha : |a| ≤ b) (hc : 2 ≤ c) : |a / c| ≤ b / 2 := by
  have hb : 0 ≤ b := (abs_nonneg a).trans ha
  rw [abs_div, abs_of_nonneg (by linarith : 0 ≤ c)]
  exact div_le_div₀ hb ha two_pos hc

variable {x m c : Float}

theorem abs_first_share_le (hx : Ordinary x) (hm : m.isFinite) (hm0 : (ofFloat m).toReal = 0)
    (hc : Positive (ofFloat c)) (hone : (ofFloat c).toReal = 1) : ((x - m) / c).isFinite ∧
      |(ofFloat m).toReal + (ofFloat ((x - m) / c)).toReal| ≤ 2 * wide := by
  have hlimit : wide < 2 ^ 1024 := lt_huge_of_le_wide (by linarith [wide_pos])
  have hsub := roundsTo_sub hx.1 hm
  rw [hm0, sub_zero] at hsub
  obtain ⟨hsubfinite, hsuble⟩ := hsub.abs_le hx.2 rounded_wide hlimit
  have hdiv := roundsTo_div hsubfinite hc
  rw [hone, div_one] at hdiv
  obtain ⟨hdivfinite, hdivle⟩ := hdiv.abs_le hsuble rounded_wide hlimit
  rw [hm0, zero_add]
  exact ⟨hdivfinite, hdivle.trans (by linarith [wide_pos])⟩

theorem abs_later_share_le (hx : Ordinary x) (hm : m.isFinite)
    (hmle : |(ofFloat m).toReal| ≤ 2 * wide) (hc : Positive (ofFloat c))
    (htwo : 2 ≤ (ofFloat c).toReal) : ((x - m) / c).isFinite ∧
      |(ofFloat m).toReal + (ofFloat ((x - m) / c)).toReal| ≤ 2 * wide := by
  have hpos := wide_pos
  obtain ⟨hxlow, hxhigh⟩ := abs_le.mp hx.2
  obtain ⟨hmlow, hmhigh⟩ := abs_le.mp hmle
  have hsub := roundsTo_sub hx.1 hm
  obtain ⟨hsubfinite, hsuble⟩ := hsub.abs_le (abs_le.mpr ⟨by linarith, by linarith⟩)
    rounded_three_wide (lt_huge_of_le_wide (by linarith))
  have hdiv := roundsTo_div hsubfinite hc
  obtain ⟨hdivfinite, hdivle⟩ := hdiv.abs_le (abs_div_le hsuble htwo) rounded_half_three_wide
    (lt_huge_of_le_wide (by linarith))
  refine ⟨hdivfinite, ?_⟩
  obtain ⟨hdivlow, hdivhigh⟩ := abs_le.mp hdivle
  rcases le_or_gt |(ofFloat m).toReal| wide with hnear | hfar
  · obtain ⟨hnearlow, hnearhigh⟩ := abs_le.mp hnear
    obtain ⟨-, hsuble⟩ := hsub.abs_le (abs_le.mpr ⟨by linarith, by linarith⟩) rounded_two_wide
      (lt_huge_of_le_wide (by linarith))
    have hhalf := abs_div_le hsuble htwo
    rw [mul_div_cancel_left₀ _ two_ne_zero] at hhalf
    obtain ⟨-, hdivle⟩ := hdiv.abs_le hhalf rounded_wide (lt_huge_of_le_wide (by linarith))
    exact (abs_add_le _ _).trans (by linarith)
  · rcases lt_abs.mp hfar with hfar | hfar
    · have hdown := hdiv.nonpos hdivfinite (div_nonpos_of_nonpos_of_nonneg
        (hsub.nonpos hsubfinite (by linarith)) hc.toReal_pos.le)
      exact abs_le.mpr ⟨by linarith, by linarith⟩
    · have hup := hdiv.nonneg hdivfinite (div_nonneg
        (hsub.nonneg hsubfinite (by linarith)) hc.toReal_pos.le)
      exact abs_le.mpr ⟨by linarith, by linarith⟩

theorem settled_meanStep {m : Float × Nat} {x : Float} (hm : Settled m) (hx : Ordinary x)
    (hsize : m.2 + 1 ≤ maxSize) : Settled (meanStep m x) := by
  obtain ⟨mean, count⟩ := m
  obtain ⟨hmfinite, hmle, hstart⟩ := hm
  have hcount := positive_ofNat (Nat.succ_pos count) hsize
  have hshare : ((x - mean) / Scalar.ofNat (count + 1)).isFinite ∧ |(ofFloat mean).toReal +
      (ofFloat ((x - mean) / Scalar.ofNat (count + 1))).toReal| ≤ 2 * wide := by
    obtain _ | count := count
    · refine abs_first_share_le hx hmfinite (hstart rfl) hcount ?_
      exact (toReal_ofNat (by decide)).trans Nat.cast_one
    · refine abs_later_share_le hx hmfinite hmle hcount ?_
      have htwo := (ofNat_of_le_maxSize hsize).2.2 2 (by decide) (by omega)
      exact_mod_cast htwo
  obtain ⟨hfinite, hle⟩ := (roundsTo_add hmfinite hshare.1).abs_le hshare.2 rounded_two_wide
    (lt_huge_of_le_wide (by linarith [wide_pos]))
  exact ⟨hfinite, hle, fun h => absurd h (Nat.succ_ne_zero count)⟩

theorem settled_foldl (xs : List Float) {m : Float × Nat} (hm : Settled m)
    (hxs : ∀ x ∈ xs, Ordinary x) (hsize : m.2 + xs.length ≤ maxSize) :
    Settled (xs.foldl meanStep m) := by
  induction xs generalizing m with
  | nil => exact hm
  | cons x xs ih =>
    rw [List.forall_mem_cons] at hxs
    rw [List.length_cons] at hsize
    have hstep := settled_meanStep hm hxs.1 (by omega)
    have hcount : (meanStep m x).2 = m.2 + 1 := rfl
    exact ih hstep hxs.2 (by omega)

theorem settled_meanOf {xs : List Float} (hne : xs ≠ []) (hxs : ∀ x ∈ xs, Ordinary x)
    (hsize : xs.length ≤ maxSize) :
    (meanOf xs).isFinite ∧ |(ofFloat (meanOf xs)).toReal| ≤ 2 * wide := by
  have hzero : (ofFloat (Scalar.ofNat 0)).toReal = 0 := by rw [ofFloat_zero_eq, toReal_zero]
  have hstart : Settled ((Scalar.ofNat 0 : Float), 0) :=
    ⟨by decide +kernel, by rw [hzero, abs_zero]; linarith [wide_pos], fun _ => hzero⟩
  have hrun := settled_foldl xs hstart hxs (by simpa using hsize)
  rw [meanOf, if_neg hne]
  exact ⟨hrun.finite, hrun.bounded⟩

end Stat

theorem finite_multiple_of_ordinary {x mean : Float} {k : Nat} (hx : Ordinary x)
    (hmean : mean.isFinite ∧ |(ofFloat mean).toReal| ≤ 2 * wide) (hk : k ≤ maxSize) :
    (x - mean).isFinite ∧ (Scalar.ofNat k * (x - mean) : Float).isFinite := by
  have hpos := wide_pos
  obtain ⟨hxlow, hxhigh⟩ := abs_le.mp hx.2
  obtain ⟨hmlow, hmhigh⟩ := abs_le.mp hmean.2
  obtain ⟨hfinite, hle⟩ := (roundsTo_sub hx.1 hmean.1).abs_le
    (abs_le.mpr ⟨by linarith, by linarith⟩) rounded_three_wide (lt_huge_of_le_wide (by linarith))
  refine ⟨hfinite, ?_⟩
  obtain ⟨hkfinite, hkle, hklow⟩ := ofNat_of_le_maxSize hk
  have hk0 := hklow 0 (by decide) (Nat.zero_le k)
  rw [Nat.cast_zero] at hk0
  have hproduct : |(ofFloat (Float.ofNat k)).toReal * (ofFloat (x - mean)).toReal| ≤
      2 ^ 64 * (3 * wide) := by
    rw [abs_mul, abs_of_nonneg hk0]
    exact mul_le_mul hkle hle (abs_nonneg _) (by positivity)
  have hlimit : (2 : ℝ) ^ 64 * (3 * wide) < 2 ^ 1024 := lt_huge_of_le_wide (by linarith)
  refine ((roundsTo_mul hkfinite hfinite).abs_le hproduct ?_ hlimit).1
  rw [wide, mul_left_comm, ← pow_add]
  exact rounded_three_two_pow (by decide)

theorem foldl_add_ne_nan {first : Float} (hfirst : ofFloat first ≠ nan) (ys : List Float)
    (hys : ∀ y ∈ ys, y.isFinite) : ofFloat (ys.foldl (· + ·) first) ≠ nan := by
  induction ys generalizing first with
  | nil => exact hfirst
  | cons y ys ih =>
    rw [List.forall_mem_cons] at hys
    obtain ⟨n, m, e, hy⟩ := isFinite_iff.mp hys.1
    refine ih ?_ hys.2
    rw [ne_eq, add_eq_nan_iff, hy]
    rintro (h | h | ⟨_, _, h⟩)
    · exact hfirst h
    · cases h
    · cases h

theorem not_spreadLost_of_ordinary {xs : List Float} (hxs : ∀ x ∈ xs, Ordinary x)
    (hsize : xs.length ≤ maxSize) : ¬ SpreadLost (xs.map (· - Stat.meanOf xs)) := by
  rintro ⟨first, before, y, after, hsplit, hlost⟩
  have hne : xs ≠ [] := by
    rintro rfl
    cases hsplit
  have hmean := Stat.settled_meanOf hne hxs hsize
  have hfinite : ∀ z ∈ first :: (before ++ y :: after), z.isFinite := by
    intro z hz
    rw [← hsplit] at hz
    obtain ⟨x, hx, rfl⟩ := List.mem_map.mp hz
    exact (finite_multiple_of_ordinary (hxs x hx) hmean hsize).1
  have hlength : xs.length = (first :: (before ++ y :: after)).length := by
    rw [← hsplit, List.length_map]
  have hy : y ∈ xs.map (· - Stat.meanOf xs) := by
    rw [hsplit]
    simp
  obtain ⟨x, hx, rfl⟩ := List.mem_map.mp hy
  obtain ⟨-, hmultiple⟩ := finite_multiple_of_ordinary (k := before.length + 2) (hxs x hx) hmean
    (by simp at hlength; omega)
  have hsum : ofFloat (before.foldl (· + ·) first + (x - Stat.meanOf xs)) ≠ nan := by
    have hfirst : ofFloat first ≠ nan := by
      obtain ⟨n, m, e, hread⟩ := isFinite_iff.mp (hfinite first List.mem_cons_self)
      rw [hread]
      exact Double.noConfusion
    have hrun := foldl_add_ne_nan hfirst (before ++ [x - Stat.meanOf xs])
      fun z hz => hfinite z (by simp at hz ⊢; tauto)
    rwa [List.foldl_append] at hrun
  rw [sub_eq_nan_iff] at hlost
  obtain ⟨n, m, e, hread⟩ := isFinite_iff.mp hmultiple
  rw [hread] at hlost
  rcases hlost with h | h | ⟨_, h, -⟩
  · cases h
  · exact hsum h
  · cases h

end EnergyProfile
