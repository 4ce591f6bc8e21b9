import Mathlib.Control.Basic
import Mathlib.Data.List.Forall2

/-!
# Steps that may fail

A computation made of steps ends well exactly if each of its steps does. Steps that only look at a
state leave it as it is, and so does what is made of them.
-/

namespace EnergyProfile

set_option autoImplicit false

variable {ε β γ σ : Type}

def fault? : Except ε β → Option ε
  | .error e => some e
  | .ok _ => none

theorem fault?_eq_none_iff {x : Except ε β} : fault? x = none ↔ ∃ b, x = .ok b := by
  cases x <;> simp [fault?]

theorem bind_eq_ok_iff {x : Except ε β} {f : β → Except ε γ} {c : γ} :
    x >>= f = .ok c ↔ ∃ b, x = .ok b ∧ f b = .ok c := by
  cases x <;> simp [bind, Except.bind]

theorem map_eq_ok_iff {x : Except ε β} {f : β → γ} {c : γ} :
    x.map f = .ok c ↔ ∃ b, x = .ok b ∧ f b = c := by
  cases x <;> simp [Except.map]

theorem exists_ok_of_toOption {x : Except ε β} {f : β → γ} {c : γ}
    (h : x.toOption.map f = some c) : ∃ b, x = .ok b ∧ f b = c := by
  cases x with
  | error e => cases h
  | ok b => exact ⟨b, rfl, Option.some.inj h⟩

theorem mapM_eq_ok_iff {f : β → Except ε γ} {xs : List β} {ys : List γ} :
    xs.mapM f = .ok ys ↔ List.Forall₂ (fun x y => f x = .ok y) xs ys := by
  induction xs generalizing ys with
  | nil =>
    rw [List.mapM_nil, List.forall₂_nil_left_iff]
    exact ⟨fun h => (Except.ok.inj h).symm, fun h => congrArg Except.ok h.symm⟩
  | cons x xs ih =>
    rw [List.mapM_cons, bind_eq_ok_iff, List.forall₂_cons_left_iff]
    constructor
    · rintro ⟨y, hy, h⟩
      obtain ⟨rest, hrest, h⟩ := bind_eq_ok_iff.mp h
      exact ⟨y, rest, hy, ih.mp hrest, (Except.ok.inj h).symm⟩
    · rintro ⟨y, rest, hy, hrest, rfl⟩
      exact ⟨y, hy, bind_eq_ok_iff.mpr ⟨rest, ih.mpr hrest, rfl⟩⟩

/-- Steps fail at the first one that does. -/
theorem exists_of_mapM_eq_error {f : β → Except ε γ} {xs : List β} {e : ε}
    (h : xs.mapM f = .error e) : ∃ before x rest, xs = before ++ x :: rest ∧
      (∀ y ∈ before, ∃ c, f y = .ok c) ∧ f x = .error e := by
  induction xs with
  | nil => cases h
  | cons x xs ih =>
    rw [List.mapM_cons] at h
    cases hx : f x with
    | error _ =>
      rw [hx] at h
      obtain rfl := Except.error.inj h
      exact ⟨[], x, xs, rfl, by simp, hx⟩
    | ok c =>
      cases hxs : xs.mapM f with
      | ok _ =>
        rw [hx, hxs] at h
        cases h
      | error _ =>
        rw [hx, hxs] at h
        obtain rfl := Except.error.inj h
        obtain ⟨before, y, rest, rfl, hbefore, hy⟩ := ih hxs
        refine ⟨x :: before, y, rest, rfl, ?_, hy⟩
        intro z hz
        cases hz with
        | head => exact ⟨c, hx⟩
        | tail _ hz => exact hbefore z hz

theorem bind_apply_of_eq {x : StateM σ β} {f : β → StateM σ γ} {s s' : σ} {b : β}
    (h : x s = (b, s')) : (x >>= f) s = f b s' := by
  change f (x s).1 (x s).2 = f b s'
  rw [h]

/-- In a state, a computation has this result and leaves the state as it is. -/
def Answers (x : ExceptT ε (StateM σ) β) (s : σ) (r : Except ε β) : Prop :=
  x.run s = (r, s)

theorem Answers.pure (b : β) (s : σ) :
    Answers (Pure.pure b : ExceptT ε (StateM σ) β) s (.ok b) := rfl

theorem Answers.bind {x : ExceptT ε (StateM σ) β} {f : β → ExceptT ε (StateM σ) γ} {s : σ}
    {r : Except ε β} {g : β → Except ε γ} (hx : Answers x s r) (hf : ∀ b, Answers (f b) s (g b)) :
    Answers (x >>= f) s (r >>= g) := by
  change (x.run >>= ExceptT.bindCont f) s = _
  rw [bind_apply_of_eq hx]
  cases r with
  | error e => rfl
  | ok b => exact hf b

end EnergyProfile
