import EnergyProfile.Scalar

/-!
# Reads and writes that must lie in range

A read beside a list gives a default, a difference below zero is zero, and a slice is cut to what is
there. The same operations are given here in a strict form, which has no result where the plain one
would have to make one up. A computation that agrees with its strict form never leaves its data.
-/

namespace EnergyProfile

set_option autoImplicit false

/-- A difference that must not fall below zero. -/
def sub? (a b : Nat) : Option Nat :=
  if b ≤ a then some (a - b) else none

theorem sub?_eq_some {a b : Nat} (h : b ≤ a) : sub? a b = some (a - b) :=
  if_pos h

variable {α β : Type}

theorem getElem?_eq_some_getD {xs : Array β} {i : Nat} (hi : i < xs.size) (fallback : β) :
    xs[i]? = some (xs.getD i fallback) := by
  rw [Array.getD_eq_getD_getElem?, Array.getElem?_eq_getElem hi]
  rfl

theorem mapM_eq_some {f : α → Option β} {g : α → β} {xs : List α}
    (h : ∀ x ∈ xs, f x = some (g x)) : xs.mapM f = some (xs.map g) := by
  induction xs with
  | nil => rfl
  | cons x xs ih =>
    have hrest := ih fun y hy => h y (List.mem_cons_of_mem x hy)
    rw [List.mapM_cons, h x List.mem_cons_self, hrest]
    rfl

/-- Writes a part over a list, from a position on. -/
def overwrite? (xs : List β) (start : Nat) (part : List β) : Option (List β) :=
  if start + part.length ≤ xs.length then
    some (xs.take start ++ part ++ xs.drop (start + part.length))
  else none

theorem overwrite?_append (before rest : List β) {old part : List β}
    (h : old.length = part.length) :
    overwrite? (before ++ old ++ rest) before.length part = some (before ++ part ++ rest) := by
  have hstop : before.length + part.length = (before ++ old).length := by
    rw [List.length_append, h]
  have hfits : (before ++ old).length ≤ (before ++ old ++ rest).length :=
    (List.sublist_append_left _ _).length_le
  rw [overwrite?, hstop, if_pos hfits, List.drop_left, List.append_assoc before old,
    List.take_left]

end EnergyProfile
