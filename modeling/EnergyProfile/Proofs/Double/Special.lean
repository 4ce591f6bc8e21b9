import EnergyProfile.Proofs.Double.Reading

/-!
# Numbers that are not finite

What is not finite stays so: a sum into which an infinity or a number that is none has gone never
becomes finite again, and a difference of two such sums is no number.
-/

namespace EnergyProfile

set_option autoImplicit false

open Float.Model

namespace Double

variable {x y : Float}

theorem add_eq (x y : Float) : x + y =
    .ofModel (.pack (UnpackedFloat.add Format.binary64 x.toModel.unpack y.toModel.unpack)) := rfl

theorem sub_eq (x y : Float) : x - y =
    .ofModel (.pack (UnpackedFloat.sub Format.binary64 x.toModel.unpack y.toModel.unpack)) := rfl

theorem mul_eq (x y : Float) : x * y =
    .ofModel (.pack (UnpackedFloat.mul Format.binary64 x.toModel.unpack y.toModel.unpack)) := rfl

theorem div_eq (x y : Float) : x / y =
    .ofModel (.pack (UnpackedFloat.div Format.binary64 x.toModel.unpack y.toModel.unpack)) := rfl

theorem lt_iff (x y : Float) :
    x < y ↔ x.toModel.unpack.compare y.toModel.unpack = some .lt := by
  change decide (x.toModel < y.toModel) = true ↔ _
  rw [decide_eq_true_iff]
  change (x.toModel.unpack.compare y.toModel.unpack == some .lt) = true ↔ _
  exact beq_iff_eq

theorem sign_inj {s t : UnpackedFloat.Sign} (h : (s == .negative) = (t == .negative)) : s = t := by
  cases s <;> cases t <;> first | rfl | cases h

theorem unpack_of_nan (h : ofFloat x = nan) : x.toModel.unpack = .notANumber := by
  rw [ofFloat_eq] at h
  revert h
  cases x.toModel.unpack <;> simp [ofUnpacked]

theorem unpack_of_infinite {negative : Bool} (h : ofFloat x = infinite negative) :
    ∃ s, x.toModel.unpack = .infinity s ∧ (s == .negative) = negative := by
  rw [ofFloat_eq] at h
  revert h
  cases x.toModel.unpack <;> simp [ofUnpacked]

theorem isFinite_iff : x.isFinite ↔ ∃ negative m e, ofFloat x = finite negative m e := by
  rw [ofFloat_eq, Float.isFinite, Float.Model.isFinite]
  cases x.toModel.unpack <;> simp [ofUnpacked, UnpackedFloat.isFinite]

theorem not_isFinite_iff :
    x.isFinite = false ↔ ofFloat x = nan ∨ ∃ negative, ofFloat x = infinite negative := by
  rw [ofFloat_eq, Float.isFinite, Float.Model.isFinite]
  cases x.toModel.unpack <;> simp [ofUnpacked, UnpackedFloat.isFinite]

theorem nan_add (h : ofFloat x = nan) : ofFloat (x + y) = nan := by
  rw [add_eq, unpack_of_nan h]
  exact ofFloat_nan

theorem nan_sub (h : ofFloat x = nan) : ofFloat (x - y) = nan := by
  rw [sub_eq, unpack_of_nan h]
  exact ofFloat_nan

theorem sub_nan (h : ofFloat y = nan) : ofFloat (x - y) = nan := by
  rw [sub_eq, unpack_of_nan h]
  cases x.toModel.unpack <;> exact ofFloat_nan

theorem nan_mul (h : ofFloat x = nan) : ofFloat (x * y) = nan := by
  rw [mul_eq, unpack_of_nan h]
  exact ofFloat_nan

theorem eq_of_nan (hx : ofFloat x = nan) (hy : ofFloat y = nan) : x = y := by
  have hword (z : Float) (hz : ofFloat z = nan) :
      z.toModel.toBits.toBitVec = UnpackedFloat.packedNaN Format.binary64 := by
    have hunpack := unpack_of_nan hz
    rw [Float.Model.unpack, UnpackedFloat.unpack] at hunpack
    split at hunpack
    · rename_i hfield
      split at hunpack
      · cases hunpack
      · rename_i hfraction
        exact z.toModel.valid.eq_packedNaN hfield hfraction
    · split at hunpack
      · split at hunpack <;> cases hunpack
      · cases hunpack
  have hbits := (hword x hx).trans (hword y hy).symm
  obtain ⟨⟨⟨xbits⟩, _⟩⟩ := x
  obtain ⟨⟨⟨ybits⟩, _⟩⟩ := y
  obtain rfl : xbits = ybits := hbits
  rfl

theorem not_lt_nan (h : ofFloat y = nan) : ¬ x < y := by
  rw [lt_iff, unpack_of_nan h]
  cases x.toModel.unpack <;> simp [UnpackedFloat.compare]

theorem lt_infinite (hx : x.isFinite) (hy : ofFloat y = infinite false) : x < y := by
  obtain ⟨s, hs, hsign⟩ := unpack_of_infinite hy
  have hplus : s = .positive := sign_inj hsign
  rw [Float.isFinite, Float.Model.isFinite] at hx
  rw [lt_iff, hs, hplus]
  cases hu : x.toModel.unpack <;> simp_all [UnpackedFloat.isFinite, UnpackedFloat.compare]

theorem add_of_not_isFinite (h : x.isFinite = false) :
    ofFloat (x + y) = ofFloat x ∨ ofFloat (x + y) = nan := by
  rcases not_isFinite_iff.mp h with h | ⟨negative, h⟩
  · exact .inr (nan_add h)
  · obtain ⟨s, hs, hsign⟩ := unpack_of_infinite h
    rw [h, add_eq, hs, ← hsign]
    cases y.toModel.unpack with
    | notANumber => exact .inr ofFloat_nan
    | infinity t =>
      simp only [UnpackedFloat.add]
      split
      · exact .inl (ofFloat_infinity s)
      · exact .inr ofFloat_nan
    | zero t => exact .inl (ofFloat_infinity s)
    | finite t m e hm => exact .inl (ofFloat_infinity s)

theorem add_not_isFinite (h : y.isFinite = false) : (x + y).isFinite = false := by
  rw [not_isFinite_iff, add_eq]
  rcases not_isFinite_iff.mp h with h | ⟨negative, h⟩
  · rw [unpack_of_nan h]
    left
    cases x.toModel.unpack <;> exact ofFloat_nan
  · obtain ⟨t, ht, -⟩ := unpack_of_infinite h
    rw [ht]
    cases x.toModel.unpack with
    | notANumber => exact .inl ofFloat_nan
    | infinity s =>
      simp only [UnpackedFloat.add]
      split
      · exact .inr ⟨_, ofFloat_infinity s⟩
      · exact .inl ofFloat_nan
    | zero s => exact .inr ⟨_, ofFloat_infinity t⟩
    | finite s m e hm => exact .inr ⟨_, ofFloat_infinity t⟩

theorem sub_of_not_isFinite (h : x.isFinite = false) (hy : ofFloat y = ofFloat x) :
    ofFloat (y - x) = nan := by
  rcases not_isFinite_iff.mp h with h | ⟨negative, h⟩
  · exact sub_nan h
  · obtain ⟨s, hs, hsign⟩ := unpack_of_infinite h
    obtain ⟨t, ht, htsign⟩ := unpack_of_infinite (hy.trans h)
    rw [sub_eq, hs, ht, sign_inj (htsign.trans hsign.symm)]
    cases s <;> exact ofFloat_nan

end Double

end EnergyProfile
