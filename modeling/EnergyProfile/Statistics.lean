import EnergyProfile.Scalar

/-!
# Mean and spread

The mean is found in one pass, each value moving it by its share. The spread is the standard
deviation with one degree of freedom taken by the mean, also found in one pass over the deviations
from it, so values that are all equal have no spread at all. What the values do not determine is
undefined: both without values, and the spread with only one.
-/

namespace EnergyProfile

set_option autoImplicit false

structure Stat (α : Type) where
  mean : α
  spread : α
  count : Nat

namespace Stat

variable {α : Type} [Scalar α]

open Scalar

/-- The mean of the values so far and their number, with one value more. -/
def meanStep (m : α × Nat) (x : α) : α × Nat :=
  (m.1 + (x - m.1) / ofNat (m.2 + 1), m.2 + 1)

def meanOf (xs : List α) : α :=
  if xs = [] then undefined else (xs.foldl meanStep (ofNat 0, 0)).1

/-- The sum of the values so far, their squared deviations and their number. -/
structure Deviations (α : Type) where
  sum : α
  squares : α
  count : Nat

/-- One value more. The squared deviations grow by `(i * x - sum)² / (i * (i - 1))`. -/
def Deviations.step (d : Deviations α) (x : α) : Deviations α :=
  let count := d.count + 1
  let sum := d.sum + x
  let i : α := ofNat count
  let difference := i * x - sum
  ⟨sum, d.squares + difference * difference / (i * (i - ofNat 1)), count⟩

/-- The standard deviation of values that are deviations from a mean. -/
def spreadOf : List α → α
  | [] => undefined
  | [_] => undefined
  | first :: rest =>
    let d := rest.foldl Deviations.step ⟨first, ofNat 0, 1⟩
    sqrt (d.squares / (ofNat d.count - ofNat 1))

def of (xs : List α) : Stat α :=
  let mean := meanOf xs
  ⟨mean, spreadOf (xs.map (· - mean)), xs.length⟩

def isEmpty (s : Stat α) : Bool := s.count == 0

def empty : Stat α := ⟨undefined, undefined, 0⟩

@[simp] theorem count_of (xs : List α) : (of xs).count = xs.length := rfl

@[simp] theorem of_nil : of ([] : List α) = empty := rfl

end Stat

/-- A part as a percentage of a total, unless the total is zero or either is not finite. -/
def percentOf {α : Type} [Scalar α] (part total : α) : Option α :=
  if !Scalar.isFinite part || !Scalar.isFinite total || Scalar.equal total (Scalar.ofNat 0) then
    none
  else some (part / total * Scalar.ofNat 100)

end EnergyProfile
