import EnergyProfile.Double
import EnergyProfile.Statistics
import Mathlib.Analysis.SpecialFunctions.Trigonometric.Basic
import Mathlib.Tactic.FieldSimp

/-!
# Exact arithmetic

The real numbers as a number type for recordings: every operation is exact and every number finite.
Statements about sums and means that rounding would disturb are made here. What no data determine
has no real number of its own; nothing is said about such values.
-/

namespace EnergyProfile

set_option autoImplicit false

/-- Without a quotient of the reals, that of `Scalar` could be found in its place. -/
noncomputable instance divReal : Div ℝ := DivInvMonoid.toDiv

/-- Real numerals rest on this. Under a name it is the same fact in all definitions. -/
instance atLeastTwo : Nat.AtLeastTwo 2 := inferInstance

noncomputable instance : Scalar ℝ where
  ofNat n := n
  ofDecimal digits places := digits / 10 ^ places
  emptySum := 0
  undefined := 0
  pi := Real.pi
  sqrt := Real.sqrt
  sin := Real.sin
  cos := Real.cos
  isFinite _ := true
  less x y := decide (x < y)
  equal x y := decide (x = y)
  floor? x := some ⌊x⌋
  round? x := some (if x < 0 then -⌊-x + 1 / 2⌋ else ⌊x + 1 / 2⌋)

/-- The real number that a finite double stands for. -/
noncomputable def Double.toReal : Double → ℝ
  | finite negative significand exponent =>
    (if negative then -1 else 1) * significand * 2 ^ exponent
  | _ => 0

namespace Scalar

@[simp] theorem ofNat_real (n : Nat) : (ofNat n : ℝ) = n := rfl

@[simp] theorem ofDecimal_real (digits places : Nat) :
    (ofDecimal digits places : ℝ) = digits / 10 ^ places := rfl

@[simp] theorem pi_real : (pi : ℝ) = Real.pi := rfl

@[simp] theorem sin_real (x : ℝ) : sin x = Real.sin x := rfl

@[simp] theorem cos_real (x : ℝ) : cos x = Real.cos x := rfl

@[simp] theorem less_real (x y : ℝ) : less x y = decide (x < y) := rfl

@[simp] theorem equal_real (x y : ℝ) : equal x y = decide (x = y) := rfl

@[simp] theorem isFinite_real (x : ℝ) : isFinite x = true := rfl

@[simp] theorem sum_real (xs : List ℝ) : sum xs = xs.sum := by
  rw [List.sum_eq_foldl]
  rfl

end Scalar

namespace Stat

/-- Each value moves the mean by its share, so the mean times the number stays the sum. -/
theorem foldl_meanStep (xs : List ℝ) (mean : ℝ) (count : Nat) :
    (xs.foldl meanStep (mean, count)).1 * (count + xs.length : ℕ) = mean * count + xs.sum := by
  induction xs generalizing mean count with
  | nil => simp
  | cons x xs ih =>
    have hstep : meanStep (mean, count) x = (mean + (x - mean) / (count + 1 : ℕ), count + 1) := rfl
    have hcount : ((count + 1 : ℕ) : ℝ) ≠ 0 := by positivity
    have ih := ih (mean + (x - mean) / (count + 1 : ℕ)) (count + 1)
    rw [List.foldl_cons, hstep, List.length_cons, show count + (xs.length + 1) =
      count + 1 + xs.length by omega, ih, add_mul, div_mul_cancel₀ _ hcount, List.sum_cons]
    push_cast
    ring

theorem meanOf_mul_length (xs : List ℝ) : meanOf xs * xs.length = xs.sum := by
  cases xs with
  | nil => simp
  | cons x xs =>
    have := foldl_meanStep (x :: xs) 0 0
    simpa [meanOf] using this

end Stat

end EnergyProfile
