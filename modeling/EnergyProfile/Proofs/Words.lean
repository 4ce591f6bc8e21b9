import EnergyProfile.Words

/-!
# Results under a condition

A computation with checked sizes has one possible result, and it has that exactly if all its sizes
fit in words. The condition of a computation is put together from those of its steps.
-/

namespace EnergyProfile

set_option autoImplicit false

variable {β γ : Type}

/-- A computation has this result under a condition, and none otherwise. -/
structure SomeIff (P : Prop) (x : Option β) (b : β) : Prop where
  some_of : P → x = some b
  none_of : ¬ P → x = none

namespace SomeIff

variable {P Q : Prop} {x : Option β} {b : β} {c : γ}

theorem pure (b : β) : SomeIff True (some b) b :=
  ⟨fun _ => rfl, fun h => absurd trivial h⟩

theorem congr (h : SomeIff P x b) (hPQ : P ↔ Q) : SomeIff Q x b :=
  ⟨fun hQ => h.some_of (hPQ.mpr hQ), fun hQ => h.none_of fun hP => hQ (hPQ.mp hP)⟩

theorem eq_of_some {a : β} (h : SomeIff P (some a) b) : a = b := by
  by_cases hP : P
  · exact Option.some.inj (h.some_of hP)
  · cases h.none_of hP

theorem bind {f : β → Option γ} (hx : SomeIff P x b) (hf : SomeIff Q (f b) c) :
    SomeIff (P ∧ Q) (x >>= f) c := by
  constructor
  · rintro ⟨hP, hQ⟩
    rw [hx.some_of hP]
    exact hf.some_of hQ
  · intro h
    by_cases hP : P
    · rw [hx.some_of hP]
      exact hf.none_of fun hQ => h ⟨hP, hQ⟩
    · rw [hx.none_of hP]
      rfl

theorem bind_pure (f : β → γ) (hx : SomeIff P x b) :
    SomeIff P (x >>= fun a => Pure.pure (f a)) (f b) :=
  (hx.bind (pure (f b))).congr (and_iff_left trivial)

theorem map (f : β → γ) (hx : SomeIff P x b) : SomeIff P (f <$> x) (f b) := by
  rw [← bind_pure_comp]
  exact hx.bind_pure f

theorem bind_of {f : β → Option γ} (hx : SomeIff P x b) (hf : SomeIff Q (f b) c) (hQP : Q → P) :
    SomeIff Q (x >>= f) c :=
  (hx.bind hf).congr ⟨And.right, fun hQ => ⟨hQP hQ, hQ⟩⟩

theorem mapM {P : β → Prop} {f : β → Option γ} {g : β → γ} {xs : List β}
    (h : ∀ x ∈ xs, SomeIff (P x) (f x) (g x)) : SomeIff (∀ x ∈ xs, P x) (xs.mapM f) (xs.map g) := by
  induction xs with
  | nil => exact (pure []).congr (by simp)
  | cons x xs ih =>
    obtain ⟨hfirst, hrest⟩ := List.forall_mem_cons.mp h
    have hlast (y : γ) : SomeIff ((∀ x ∈ xs, P x) ∧ True)
        (do let ys ← xs.mapM f; Pure.pure (y :: ys)) (y :: xs.map g) :=
      (ih hrest).bind (pure _)
    rw [List.mapM_cons, List.map_cons]
    exact (hfirst.bind (hlast (g x))).congr (by simp)

end SomeIff

theorem someIff_size? (n : Nat) : SomeIff (n ≤ maxSize) (size? n) n :=
  ⟨fun h => if_pos h, fun h => if_neg h⟩

theorem someIff_of_size (n : Nat) (f : Nat → γ) :
    SomeIff (n ≤ maxSize) (do let k ← size? n; return f k) (f n) :=
  (someIff_size? n).bind_pure f

end EnergyProfile
