import EnergyProfile.Proofs.Words
import Mathlib.Control.Basic
import Mathlib.Tactic.Choose

/-!
# What computations result in

A computation may do as it likes on the way. What is said here is about its result: that it is known,
that it is known under a condition, or that it always has a property.
-/

namespace EnergyProfile

set_option autoImplicit false

variable {m : Type → Type} [Monad m] {β γ : Type}

/-- The result of a computation is known, though its effects may not be. -/
def Yields (x : m β) (b : β) : Prop :=
  (fun _ => b) <$> x = x

theorem yields_stateM_iff {σ : Type} {x : StateM σ β} {b : β} :
    Yields x b ↔ ∀ s, (x s).1 = b := by
  constructor
  · intro h s
    rw [← h]
    rfl
  · intro h
    funext s
    exact Prod.ext (h s).symm rfl

/-- Every result of a computation has a property, whatever else the computation does. -/
def Always (P : β → Prop) (x : m β) : Prop :=
  ∃ y : m {b // P b}, Subtype.val <$> y = x

theorem always_stateM_iff {σ : Type} {P : β → Prop} {x : StateM σ β} :
    Always P x ↔ ∀ s, P (x s).1 := by
  constructor
  · rintro ⟨y, rfl⟩ s
    exact (y s).1.property
  · intro h
    exact ⟨fun s => (⟨(x s).1, h s⟩, (x s).2), rfl⟩

theorem Always.of_run_eq_some {σ : Type} {P : β → Prop} {x : OptionT (StateM σ) β} (h : Always P x)
    {s : σ} {b : β} (hsome : (x.run s).1 = some b) : P b := by
  obtain ⟨y, rfl⟩ := h
  have hmap : ((Subtype.val <$> y).run s).1 = (y.run s).1.map Subtype.val := by
    rw [OptionT.run_map]
    rfl
  rw [hmap] at hsome
  obtain ⟨c, -, rfl⟩ := Option.map_eq_some_iff.mp hsome
  exact c.property

/-- Under a condition the result of a computation is known. Otherwise the computation breaks off. -/
def YieldsIff (P : Prop) (x : OptionT m β) (b : β) : Prop :=
  ∃ result, Yields x.run result ∧ SomeIff P result b

theorem YieldsIff.congr {P Q : Prop} {x : OptionT m β} {b : β} (h : YieldsIff P x b)
    (hPQ : P ↔ Q) : YieldsIff Q x b := by
  obtain ⟨result, hresult, hP⟩ := h
  exact ⟨result, hresult, hP.congr hPQ⟩

theorem YieldsIff.breaks {P : Prop} {x : OptionT m β} {b : β} (h : YieldsIff P x b)
    (hP : ¬ P) : Yields x.run none := by
  obtain ⟨result, hresult, hiff⟩ := h
  rwa [hiff.none_of hP] at hresult

variable [LawfulMonad m]

theorem Yields.pure (b : β) : Yields (pure b : m β) b :=
  map_pure _ b

theorem Yields.bind {x : m β} {f : β → m γ} {b : β} {c : γ} (hx : Yields x b)
    (hf : Yields (f b) c) : Yields (x >>= f) c := by
  have hconst : x >>= f = x >>= fun _ => f b := by
    rw [← hx, bind_map_left, bind_map_left]
  unfold Yields at hf ⊢
  rw [hconst, map_bind, hf]

namespace YieldsIff

variable {P Q : Prop} {b : β} {c : γ}

theorem pure (b : β) : YieldsIff True (Pure.pure b : OptionT m β) b :=
  ⟨some b, Yields.pure _, .pure b⟩

theorem of_someIff {result : Option β} (h : SomeIff P result b) :
    YieldsIff P (OptionT.mk (Pure.pure result) : OptionT m β) b :=
  ⟨result, Yields.pure _, h⟩

theorem bind {x : OptionT m β} {f : β → OptionT m γ} (hx : YieldsIff P x b)
    (hf : YieldsIff Q (f b) c) : YieldsIff (P ∧ Q) (x >>= f) c := by
  obtain ⟨result, hresult, hP⟩ := hx
  obtain ⟨result', hresult', hQ⟩ := hf
  refine ⟨result >>= fun _ => result', ?_, hP.bind hQ⟩
  rw [OptionT.run_bind]
  refine hresult.bind ?_
  cases result with
  | none => exact Yields.pure none
  | some a =>
    have ha : a = b := hP.eq_of_some
    rw [ha]
    exact hresult'

theorem bind_pure {x : OptionT m β} (f : β → γ) (hx : YieldsIff P x b) :
    YieldsIff P (x >>= fun a => Pure.pure (f a)) (f b) :=
  (hx.bind (pure (f b))).congr (and_iff_left trivial)

theorem map {x : OptionT m β} (f : β → γ) (hx : YieldsIff P x b) : YieldsIff P (f <$> x) (f b) := by
  rw [← bind_pure_comp]
  exact hx.bind_pure f

theorem after {x : m β} {f : β → OptionT m γ} (hx : Yields x b) (hf : YieldsIff Q (f b) c) :
    YieldsIff Q (OptionT.lift x >>= f) c := by
  have hlift : YieldsIff True (OptionT.lift x) b := ⟨some b, hx.bind (Yields.pure _), .pure b⟩
  exact (hlift.bind hf).congr (and_iff_right trivial)

end YieldsIff

theorem Always.pure {P : β → Prop} {b : β} (h : P b) : Always P (pure b : m β) :=
  ⟨Pure.pure ⟨b, h⟩, map_pure _ _⟩

theorem Always.map {P : β → Prop} {Q : γ → Prop} {f : β → γ} {x : m β} (h : Always P x)
    (hf : ∀ b, P b → Q (f b)) : Always Q (f <$> x) := by
  obtain ⟨y, rfl⟩ := h
  refine ⟨(fun b => ⟨f b.val, hf b.val b.property⟩) <$> y, ?_⟩
  rw [← comp_map, ← comp_map]
  rfl

theorem Always.imp {P Q : β → Prop} {x : m β} (h : Always P x) (hPQ : ∀ b, P b → Q b) :
    Always Q x := by
  rw [← id_map x]
  exact h.map hPQ

theorem always_true (x : m β) : Always (fun _ => True) x := by
  refine ⟨(fun b => ⟨b, trivial⟩) <$> x, ?_⟩
  rw [← comp_map]
  exact id_map x

theorem Always.bind {P : β → Prop} {Q : γ → Prop} {x : m β} {f : β → m γ} (hx : Always P x)
    (hf : ∀ b, P b → Always Q (f b)) : Always Q (x >>= f) := by
  obtain ⟨y, rfl⟩ := hx
  choose g hg using hf
  refine ⟨y >>= fun b => g b.val b.property, ?_⟩
  rw [map_bind, bind_map_left]
  exact bind_congr fun b => hg b.val b.property

/-- A computation ends with a property. If it breaks off, a condition holds. -/
def EndsUnless (P : Prop) (Q : β → Prop) (x : OptionT m β) : Prop :=
  Always (fun result => result.elim P Q) x.run

namespace EndsUnless

variable {P P' : Prop} {Q Q' : β → Prop} {R : γ → Prop}

theorem pure {b : β} (h : Q b) : EndsUnless P Q (Pure.pure b : OptionT m β) :=
  Always.pure h

theorem of_option {result : Option β} (h : result.elim P Q) :
    EndsUnless P Q (OptionT.mk (Pure.pure result) : OptionT m β) :=
  Always.pure h

theorem of_always {x : m β} (h : Always Q x) : EndsUnless P Q (OptionT.lift x) :=
  Always.bind h fun _ hb => Always.pure hb

theorem bind {x : OptionT m β} {f : β → OptionT m γ} (hx : EndsUnless P Q x)
    (hf : ∀ b, Q b → EndsUnless P R (f b)) : EndsUnless P R (x >>= f) := by
  unfold EndsUnless
  rw [OptionT.run_bind]
  refine Always.bind hx fun result hresult => ?_
  cases result with
  | none => exact Always.pure hresult
  | some b => exact hf b hresult

theorem imp {x : OptionT m β} (h : EndsUnless P Q x) (hP : P → P') (hQ : ∀ b, Q b → Q' b) :
    EndsUnless P' Q' x := by
  refine Always.imp h fun result hresult => ?_
  cases result with
  | none => exact hP hresult
  | some b => exact hQ b hresult

end EndsUnless

end EnergyProfile
