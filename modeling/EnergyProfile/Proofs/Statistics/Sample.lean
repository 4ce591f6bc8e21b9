import EnergyProfile.Proofs.Exact
import Mathlib.Analysis.Real.Sqrt

/-!
# Sample statistics

Mean and spread are found in one pass each, by updates that never look back. Over exact arithmetic
they are the sample mean and the unbiased standard deviation of all values: the order of the values
makes no difference, a constant that is added moves the mean alone, and a factor scales both.
-/

namespace EnergyProfile.Stat

set_option autoImplicit false

open Scalar

/-- What has been found after some values: the number, the sum, and as much of the sum of squares as
the sum does not account for. -/
structure Deviations.Over (d : Deviations ℝ) (ys : List ℝ) : Prop where
  count : d.count = ys.length
  sum : d.sum = ys.sum
  squares : d.squares = (ys.map (· ^ 2)).sum - ys.sum ^ 2 / ys.length

theorem Deviations.over_first (y : ℝ) : (⟨y, ofNat 0, 1⟩ : Deviations ℝ).Over [y] := by
  constructor
  · rfl
  · simp
  · simp

theorem Deviations.Over.step {d : Deviations ℝ} {ys : List ℝ} (h : d.Over ys) (hne : ys ≠ [])
    (y : ℝ) : (d.step y).Over (ys ++ [y]) := by
  obtain ⟨hcount, hsum, hsquares⟩ := h
  have hpos : (0 : ℝ) < ys.length := by exact_mod_cast List.length_pos_iff.mpr hne
  have hstep : (d.step y).squares = d.squares +
      (((ys.length + 1 : ℕ) : ℝ) * y - (ys.sum + y)) * (((ys.length + 1 : ℕ) : ℝ) * y - (ys.sum + y)) /
        (((ys.length + 1 : ℕ) : ℝ) * (((ys.length + 1 : ℕ) : ℝ) - ((1 : ℕ) : ℝ))) := by
    rw [← hcount, ← hsum]
    rfl
  constructor
  · rw [List.length_append, ← hcount]
    rfl
  · rw [List.sum_append, ← hsum, List.sum_singleton]
    rfl
  · rw [hstep, hsquares, List.map_append, List.sum_append, List.sum_append, List.length_append]
    simp only [List.map_cons, List.map_nil, List.sum_singleton, List.length_singleton]
    push_cast
    rw [add_sub_cancel_right]
    field_simp
    ring

theorem Deviations.Over.foldl {d : Deviations ℝ} {ys : List ℝ} (h : d.Over ys) (hne : ys ≠ [])
    (zs : List ℝ) : (zs.foldl Deviations.step d).Over (ys ++ zs) := by
  induction zs generalizing d ys with
  | nil => simpa using h
  | cons z zs ih =>
    rw [List.foldl_cons, List.append_cons]
    exact ih (h.step hne z) (by simp)

theorem spreadOf_eq_sqrt {ys : List ℝ} (htwo : 2 ≤ ys.length) : spreadOf ys =
    √(((ys.map (· ^ 2)).sum - ys.sum ^ 2 / ys.length) / (ys.length - 1)) := by
  obtain _ | ⟨first, _ | ⟨second, rest⟩⟩ := ys
  · simp at htwo
  · simp at htwo
  have hrun := (Deviations.over_first first).foldl (by simp) (second :: rest)
  rw [List.singleton_append] at hrun
  have hone : ((1 : ℕ) : ℝ) = 1 := Nat.cast_one
  rw [← hrun.squares, ← hrun.count, ← hone]
  rfl

/-- The sum of the squared deviations from the mean. -/
noncomputable def squaredDeviations (xs : List ℝ) : ℝ :=
  (xs.map fun x => (x - xs.sum / xs.length) ^ 2).sum

theorem meanOf_eq_div {xs : List ℝ} (hne : xs ≠ []) : meanOf xs = xs.sum / xs.length := by
  have hpos : (0 : ℝ) < xs.length := by exact_mod_cast List.length_pos_iff.mpr hne
  rw [eq_div_iff hpos.ne']
  exact meanOf_mul_length xs

theorem sum_map_sub (xs : List ℝ) (m : ℝ) : (xs.map (· - m)).sum = xs.sum - xs.length * m := by
  induction xs with
  | nil => simp
  | cons x xs ih =>
    rw [List.map_cons, List.sum_cons, List.sum_cons, ih, List.length_cons]
    push_cast
    ring

theorem spread_of {xs : List ℝ} (htwo : 2 ≤ xs.length) :
    (of xs).spread = √(squaredDeviations xs / (xs.length - 1)) := by
  have hne : xs ≠ [] := List.length_pos_iff.mp (by omega)
  have hpos : (xs.length : ℝ) ≠ 0 := by exact_mod_cast (by omega : xs.length ≠ 0)
  change spreadOf (xs.map (· - meanOf xs)) = _
  have hsum : (xs.map (· - meanOf xs)).sum = 0 := by
    rw [sum_map_sub, meanOf_eq_div hne, mul_div_cancel₀ _ hpos, sub_self]
  rw [spreadOf_eq_sqrt (by simpa using htwo), hsum, List.length_map, meanOf_eq_div hne]
  simp [squaredDeviations, Function.comp_def]

theorem spread_of_length_lt {xs : List ℝ} (hfew : xs.length < 2) :
    (of xs).spread = undefined := by
  obtain _ | ⟨x, _ | ⟨y, rest⟩⟩ := xs
  · rfl
  · rfl
  · simp at hfew

theorem squaredDeviations_nonneg (xs : List ℝ) : 0 ≤ squaredDeviations xs := by
  apply List.sum_nonneg
  intro y hy
  obtain ⟨x, -, rfl⟩ := List.mem_map.mp hy
  exact sq_nonneg _

/-- The sample mean and the unbiased standard deviation. Too few values leave them undefined. -/
structure IsSample (s : Stat ℝ) (xs : List ℝ) : Prop where
  count : s.count = xs.length
  mean : 1 ≤ xs.length → s.mean = xs.sum / xs.length
  spread_nonneg : 2 ≤ xs.length → 0 ≤ s.spread
  spread_sq : 2 ≤ xs.length →
    s.spread ^ 2 = (xs.map fun x => (x - s.mean) ^ 2).sum / (xs.length - 1)
  mean_undefined : xs.length < 1 → s.mean = undefined
  spread_undefined : xs.length < 2 → s.spread = undefined

theorem isSample_of (xs : List ℝ) : (of xs).IsSample xs := by
  constructor
  · rfl
  · intro hone
    exact meanOf_eq_div (List.length_pos_iff.mp hone)
  · intro htwo
    rw [spread_of htwo]
    exact Real.sqrt_nonneg _
  · intro htwo
    have hmean : (of xs).mean = xs.sum / xs.length :=
      meanOf_eq_div (List.length_pos_iff.mp (by omega))
    have hdivisor : (0 : ℝ) ≤ xs.length - 1 := by
      have : (2 : ℝ) ≤ xs.length := by exact_mod_cast htwo
      linarith
    rw [spread_of htwo, Real.sq_sqrt (div_nonneg (squaredDeviations_nonneg xs) hdivisor), hmean]
    rfl
  · intro hnone
    obtain rfl := List.eq_nil_of_length_eq_zero (Nat.lt_one_iff.mp hnone)
    rfl
  · exact spread_of_length_lt

theorem of_perm {xs ys : List ℝ} (h : xs.Perm ys) : of ys = of xs := by
  have hmean : meanOf ys = meanOf xs := by
    by_cases hne : xs = []
    · subst hne
      rw [h.nil_eq]
    · have hne' : ys ≠ [] := fun hnil => hne (hnil ▸ h).eq_nil
      rw [meanOf_eq_div hne, meanOf_eq_div hne', h.sum_eq, h.length_eq]
  have hspread : (of ys).spread = (of xs).spread := by
    by_cases htwo : 2 ≤ xs.length
    · have hdeviations : squaredDeviations ys = squaredDeviations xs := by
        rw [squaredDeviations, squaredDeviations, h.sum_eq, h.length_eq]
        exact (h.symm.map _).sum_eq
      rw [spread_of htwo, spread_of (h.length_eq ▸ htwo), hdeviations, h.length_eq]
    · rw [spread_of_length_lt (not_le.mp htwo),
        spread_of_length_lt (h.length_eq ▸ not_le.mp htwo)]
  have hcount : (of ys).count = (of xs).count := h.length_eq.symm
  calc of ys = ⟨meanOf ys, (of ys).spread, (of ys).count⟩ := rfl
    _ = ⟨meanOf xs, (of xs).spread, (of xs).count⟩ := by rw [hmean, hspread, hcount]

/-- A map that carries deviations from the mean to multiples of them does so with the spread. -/
theorem spread_of_map {xs : List ℝ} {f : ℝ → ℝ} {c : ℝ} (htwo : 2 ≤ xs.length)
    (hf : ∀ x, f x - (xs.map f).sum / xs.length = c * (x - xs.sum / xs.length)) :
    (of (xs.map f)).spread = |c| * (of xs).spread := by
  have hdeviations : squaredDeviations (xs.map f) = c ^ 2 * squaredDeviations xs := by
    simp only [squaredDeviations, List.length_map, List.map_map, Function.comp_def, hf, mul_pow,
      List.sum_map_mul_left]
  rw [spread_of htwo, spread_of (by simpa using htwo), hdeviations, List.length_map, mul_div_assoc,
    Real.sqrt_mul (sq_nonneg c), Real.sqrt_sq_eq_abs]

theorem mean_of_map_add {xs : List ℝ} (hone : 1 ≤ xs.length) (c : ℝ) :
    (xs.map (· + c)).sum / xs.length = xs.sum / xs.length + c := by
  have hpos : (xs.length : ℝ) ≠ 0 := by exact_mod_cast (by omega : xs.length ≠ 0)
  have hsum := sum_map_sub xs (-c)
  simp only [sub_neg_eq_add, mul_neg] at hsum
  rw [hsum, add_div, mul_div_cancel_left₀ _ hpos]

theorem mean_of_map_mul (xs : List ℝ) (c : ℝ) :
    (xs.map (c * ·)).sum / xs.length = c * (xs.sum / xs.length) := by
  rw [List.sum_map_mul_left, List.map_id', mul_div_assoc]

/-- The values of a sample after a constant has been added to each of them. -/
structure Moved (s s' : Stat ℝ) (c : ℝ) : Prop where
  mean : 1 ≤ s.count → s'.mean = s.mean + c
  spread : s'.spread = s.spread
  count : s'.count = s.count

/-- The values of a sample after each of them has been multiplied by a factor. -/
structure Scaled (s s' : Stat ℝ) (c : ℝ) : Prop where
  mean : 1 ≤ s.count → s'.mean = c * s.mean
  spread : 2 ≤ s.count → s'.spread = |c| * s.spread
  count : s'.count = s.count

theorem moved_of (xs : List ℝ) (c : ℝ) : Moved (of xs) (of (xs.map (· + c))) c := by
  constructor
  · intro hone
    have hmoved := (isSample_of (xs.map (· + c))).mean (by simpa using hone)
    rw [hmoved, (isSample_of xs).mean hone, List.length_map, mean_of_map_add hone]
  · by_cases htwo : 2 ≤ xs.length
    · have hspread := spread_of_map (f := (· + c)) (c := 1) htwo fun x => by
        rw [mean_of_map_add (by omega)]
        ring
      rw [hspread, abs_one, one_mul]
    · rw [spread_of_length_lt (not_le.mp htwo), spread_of_length_lt (by simpa using htwo)]
  · exact List.length_map _

theorem scaled_of (xs : List ℝ) (c : ℝ) : Scaled (of xs) (of (xs.map (c * ·))) c := by
  constructor
  · intro hone
    have hscaled := (isSample_of (xs.map (c * ·))).mean (by simpa using hone)
    rw [hscaled, (isSample_of xs).mean hone, List.length_map, mean_of_map_mul]
  · intro htwo
    apply spread_of_map htwo
    intro x
    rw [mean_of_map_mul]
    ring
  · exact List.length_map _

/-- The statistics of values are those of a sample, and change with the values as these do. -/
theorem of_sample (xs : List ℝ) : (of xs).IsSample xs ∧ (∀ ys, xs.Perm ys → of ys = of xs) ∧
    ∀ c, Moved (of xs) (of (xs.map (· + c))) c ∧ Scaled (of xs) (of (xs.map (c * ·))) c :=
  ⟨isSample_of xs, fun _ h => of_perm h, fun c => ⟨moved_of xs c, scaled_of xs c⟩⟩

noncomputable def eightValues : List ℝ := [2, 4, 4, 4, 5, 5, 7, 9]

theorem of_sample_of_eight :
    (of eightValues).mean = 5 ∧ (of eightValues).spread ^ 2 = 32 / 7 ∧
      eightValues.Perm eightValues.reverse ∧ of eightValues.reverse = of eightValues ∧
      (of (eightValues.map (· + 1))).mean = 6 ∧
      (of (eightValues.map (-2 * ·))).spread = 2 * (of eightValues).spread := by
  obtain ⟨hsample, horder, hchanged⟩ := of_sample eightValues
  have hlength : eightValues.length = 8 := rfl
  have hmean : (of eightValues).mean = 5 := by
    rw [hsample.mean (by rw [hlength]; decide), hlength]
    norm_num [eightValues]
  have hspread : (of eightValues).spread ^ 2 = 32 / 7 := by
    rw [hsample.spread_sq (by rw [hlength]; decide), hmean, hlength]
    norm_num [eightValues]
  have hreverse : eightValues.Perm eightValues.reverse := (List.reverse_perm _).symm
  refine ⟨hmean, hspread, hreverse, horder _ hreverse, ?_, ?_⟩
  · rw [(hchanged 1).1.mean (by decide), hmean]
    norm_num
  · rw [(hchanged (-2)).2.spread (by decide), abs_neg, abs_two]

end EnergyProfile.Stat
