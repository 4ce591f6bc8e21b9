/-!
# The arithmetic of measurements

`Scalar` lists what filters, statistics and timings need of a number: the four operations,
comparisons, whole parts, and a few constants. The same definitions then run on doubles and can
be reasoned about over the real numbers. No law is assumed here; a model brings its own.
-/

namespace EnergyProfile

set_option autoImplicit false

class Scalar (α : Type) extends Add α, Sub α, Mul α, Div α where
  ofNat : Nat → α
  /-- The number `digits / 10 ^ places`. -/
  ofDecimal : (digits places : Nat) → α
  /-- The value of a sum without terms. -/
  emptySum : α
  /-- The value of a statistic that its data do not determine. -/
  undefined : α
  pi : α
  sqrt : α → α
  sin : α → α
  cos : α → α
  isFinite : α → Bool
  less : α → α → Bool
  equal : α → α → Bool
  floor? : α → Option Int
  /-- The nearest integer, a half going away from zero, if the number is finite. -/
  round? : α → Option Int

namespace Scalar

variable {α : Type} [Scalar α]

/-- Terms are added from left to right. -/
def sum (xs : List α) : α :=
  xs.foldl (· + ·) emptySum

@[simp] theorem sum_nil : sum ([] : List α) = emptySum := rfl

theorem sum_concat (xs : List α) (x : α) : sum (xs ++ [x]) = sum xs + x := by
  simp [sum]

end Scalar

/-- The largest number of samples that a size can hold: a word of sixty-four bits. -/
def maxSize : Nat := 18446744073709551615

/-- A size made from an integer: negative ones are empty, too large ones are the largest. -/
def clampSize (z : Int) : Nat :=
  min z.toNat maxSize

theorem clampSize_mono {a b : Int} (h : a ≤ b) : clampSize a ≤ clampSize b := by
  unfold clampSize
  omega

end EnergyProfile
