/-!
# Tables of totals

Windows of samples are summed and counted from a table of totals: entry `i` is what has come
together from the first `i` samples. The table is made in one pass, which carries the last total.
-/

namespace EnergyProfile

set_option autoImplicit false

variable {α β : Type} (f : β → α → β)

theorem foldl_push (xs : List α) (totals : Array β) (last : β) :
    xs.foldl (fun (totals, last) x => (totals.push (f last x), f last x)) (totals, last) =
      (totals ++ ((List.range xs.length).map fun i => (xs.take (i + 1)).foldl f last).toArray,
        xs.foldl f last) := by
  induction xs generalizing totals last with
  | nil => simp
  | cons x xs ih =>
    rw [List.foldl_cons, ih]
    simp [List.range_succ_eq_map, Function.comp_def]

theorem size_foldl_push (xs : List α) (first : β) :
    (xs.foldl (fun (totals, last) x => (totals.push (f last x), f last x))
      (#[first], first)).1.size = xs.length + 1 := by
  simp [foldl_push]

theorem getD_foldl_push {xs : List α} {i : Nat} (hi : i ≤ xs.length) (first fallback : β) :
    (xs.foldl (fun (totals, last) x => (totals.push (f last x), f last x))
      (#[first], first)).1.getD i fallback = (xs.take i).foldl f first := by
  rw [Array.getD_eq_getD_getElem?, foldl_push]
  cases i with
  | zero => simp
  | succ i => simp [List.getElem?_range (show i < xs.length by omega)]

end EnergyProfile
