import EnergyProfile.Proofs.Double.Sums

/-!
# When a result is no number

An operation on numbers gives none only where infinities meet: a sum of opposite ones, a difference of
like ones. Numbers without a minus sign are closed under what a spread is made of, squares, sums,
quotients and the root, so there nothing can be lost.
-/

namespace EnergyProfile

set_option autoImplicit false

open Float.Model UnpackedFloat

namespace Double

variable {x y : Float} {n n' : Bool} {m m' : Nat} {e e' : ℤ}

theorem isNaN_iff : x.isNaN = true ↔ ofFloat x = nan := by
  rw [ofFloat_eq, Float.isNaN, Float.Model.isNaN]
  cases x.toModel.unpack <;> simp [ofUnpacked, UnpackedFloat.isNaN]

theorem Holds.ne_nan {a : ℝ} {d : Double} (h : Holds n a d) : d ≠ nan := by
  rintro rfl
  exact h

theorem RoundsTo.ne_nan {s : ℝ} {d : Double} (h : RoundsTo s d) : d ≠ nan := by
  obtain ⟨_, hholds, _⟩ := h
  exact hholds.ne_nan

theorem add_nan (h : ofFloat y = nan) : ofFloat (x + y) = nan := by
  rw [add_eq, unpack_of_nan h]
  cases x.toModel.unpack <;> exact ofFloat_nan

theorem infinite_add (hx : ofFloat x = infinite n) (hy : ofFloat y = infinite n') :
    ofFloat (x + y) = if n = n' then infinite n else nan := by
  obtain ⟨s, hs, rfl⟩ := unpack_of_infinite hx
  obtain ⟨t, ht, rfl⟩ := unpack_of_infinite hy
  rw [add_eq, hs, ht]
  cases s <;> cases t <;> first | exact ofFloat_infinity _ | exact ofFloat_nan

theorem infinite_add_finite (hx : ofFloat x = infinite n) (hy : ofFloat y = finite n' m e) :
    ofFloat (x + y) = infinite n := by
  obtain ⟨s, hs, rfl⟩ := unpack_of_infinite hx
  rw [add_eq, hs]
  rcases unpack_of_finite hy with ⟨t, ht, _⟩ | ⟨t, _, ht, _⟩ <;> rw [ht] <;>
    exact ofFloat_infinity s

theorem finite_add_infinite (hx : ofFloat x = finite n m e) (hy : ofFloat y = infinite n') :
    ofFloat (x + y) = infinite n' := by
  obtain ⟨t, ht, rfl⟩ := unpack_of_infinite hy
  rw [add_eq, ht]
  rcases unpack_of_finite hx with ⟨s, hs, _⟩ | ⟨s, _, hs, _⟩ <;> rw [hs] <;>
    exact ofFloat_infinity t

/-- A sum is lost if a part of it is, or if opposite infinities meet. -/
theorem add_eq_nan_iff : ofFloat (x + y) = nan ↔
    ofFloat x = nan ∨ ofFloat y = nan ∨
      ∃ n, ofFloat x = infinite n ∧ ofFloat y = infinite (!n) := by
  cases hx : ofFloat x with
  | nan => simp [nan_add hx]
  | infinite n =>
    cases hy : ofFloat y with
    | nan => simp [add_nan hy]
    | infinite n' =>
      rw [infinite_add hx hy]
      cases n <;> cases n' <;> simp
    | finite n' m e => simp [infinite_add_finite hx hy]
  | finite n m e =>
    cases hy : ofFloat y with
    | nan => simp [add_nan hy]
    | infinite n' => simp [finite_add_infinite hx hy]
    | finite n' m' e' =>
      have hsum := (roundsTo_add (isFinite_iff.mpr ⟨n, m, e, hx⟩)
        (isFinite_iff.mpr ⟨n', m', e', hy⟩)).ne_nan
      simp [hsum]

theorem sub_infinite (hx : ofFloat x = infinite n) (hy : ofFloat y = infinite n') :
    ofFloat (x - y) = if n = n' then nan else infinite n := by
  obtain ⟨s, hs, rfl⟩ := unpack_of_infinite hx
  obtain ⟨t, ht, rfl⟩ := unpack_of_infinite hy
  rw [sub_eq, hs, ht]
  cases s <;> cases t <;> first | exact ofFloat_infinity _ | exact ofFloat_nan

theorem finite_sub_infinite (hx : ofFloat x = finite n m e) (hy : ofFloat y = infinite n') :
    ofFloat (x - y) = infinite (!n') := by
  obtain ⟨t, ht, rfl⟩ := unpack_of_infinite hy
  rw [sub_eq, ht, ← neg_beq_negative]
  rcases unpack_of_finite hx with ⟨s, hs, _⟩ | ⟨s, _, hs, _⟩ <;> rw [hs] <;>
    exact ofFloat_infinity _

/-- A difference is lost if a part of it is, or if like infinities meet. -/
theorem sub_eq_nan_iff : ofFloat (x - y) = nan ↔
    ofFloat x = nan ∨ ofFloat y = nan ∨
      ∃ n, ofFloat x = infinite n ∧ ofFloat y = infinite n := by
  cases hx : ofFloat x with
  | nan => simp [nan_sub hx]
  | infinite n =>
    cases hy : ofFloat y with
    | nan => simp [sub_nan hy]
    | infinite n' =>
      rw [sub_infinite hx hy]
      cases n <;> cases n' <;> simp
    | finite n' m e =>
      have hfinite := infinite_sub hx (isFinite_iff.mpr ⟨n', m, e, hy⟩)
      simp [hfinite]
  | finite n m e =>
    cases hy : ofFloat y with
    | nan => simp [sub_nan hy]
    | infinite n' => simp [finite_sub_infinite hx hy]
    | finite n' m' e' =>
      have hsub := (roundsTo_sub (isFinite_iff.mpr ⟨n, m, e, hx⟩)
        (isFinite_iff.mpr ⟨n', m', e', hy⟩)).ne_nan
      simp [hsub]

/-- A finite number above zero. -/
def Positive (d : Double) : Prop := ∃ m e, 0 < m ∧ d = finite false m e

theorem positive_mul_infinite (hx : Positive (ofFloat x)) (hy : ofFloat y = infinite n) :
    ofFloat (x * y) = infinite n := by
  obtain ⟨m, e, hm, hx⟩ := hx
  obtain ⟨t, ht, rfl⟩ := unpack_of_infinite hy
  rcases unpack_of_finite hx with ⟨s, _, _, rfl⟩ | ⟨s, _, hs, hsign⟩
  · exact absurd hm (lt_irrefl 0)
  · obtain rfl : s = .positive := sign_inj hsign
    rw [mul_eq, hs, ht]
    cases t <;> exact ofFloat_infinity _

theorem mul_nan (h : ofFloat y = nan) : ofFloat (x * y) = nan := by
  rw [mul_eq, unpack_of_nan h]
  cases x.toModel.unpack <;> exact ofFloat_nan

theorem nan_div (h : ofFloat x = nan) : ofFloat (x / y) = nan := by
  rw [div_eq, unpack_of_nan h]
  exact ofFloat_nan

theorem div_positive_of_not_isFinite (hx : x.isFinite = false) (hy : Positive (ofFloat y)) :
    ofFloat (x / y) = ofFloat x := by
  obtain ⟨m, e, hm, hy⟩ := hy
  rcases unpack_of_finite hy with ⟨s, _, _, rfl⟩ | ⟨s, _, hs, hsign⟩
  · exact absurd hm (lt_irrefl 0)
  obtain rfl : s = .positive := sign_inj hsign
  rcases not_isFinite_iff.mp hx with hx | ⟨n, hx⟩
  · rw [nan_div hx, hx]
  · obtain ⟨t, ht, rfl⟩ := unpack_of_infinite hx
    rw [div_eq, ht, hs, hx]
    cases t <;> exact ofFloat_infinity _

def Unsigned (d : Double) : Prop := d = infinite false ∨ ∃ m e, d = finite false m e

theorem Unsigned.ne_nan {d : Double} (h : Unsigned d) : d ≠ nan := by
  rintro rfl
  rcases h with h | ⟨_, _, h⟩ <;> cases h

theorem Holds.unsigned {a : ℝ} {d : Double} (h : Holds false a d) : Unsigned d := by
  cases d with
  | nan => exact h.elim
  | infinite n =>
    obtain ⟨rfl, _⟩ := h
    exact .inl rfl
  | finite n m e =>
    obtain ⟨rfl, _⟩ := h
    exact .inr ⟨m, e, rfl⟩

theorem unsigned_mul_self (h : ofFloat x ≠ nan) : Unsigned (ofFloat (x * x)) := by
  cases hx : ofFloat x with
  | nan => exact absurd hx h
  | infinite n =>
    obtain ⟨s, hs, _⟩ := unpack_of_infinite hx
    rw [mul_eq, hs]
    cases s <;> exact .inl (ofFloat_infinity _)
  | finite n m e =>
    have hsquare := holds_mul hx hx
    rw [bne_self_eq_false] at hsquare
    exact hsquare.unsigned

theorem unsigned_div (hx : Unsigned (ofFloat x)) (hy : Positive (ofFloat y)) :
    Unsigned (ofFloat (x / y)) := by
  rcases hx with hx | ⟨m, e, hx⟩
  · rw [div_positive_of_not_isFinite (not_isFinite_iff.mpr (.inr ⟨false, hx⟩)) hy]
    exact .inl hx
  · obtain ⟨m', e', hm', hy⟩ := hy
    exact (holds_div hx hy hm').unsigned

theorem unsigned_add (hx : Unsigned (ofFloat x)) (hy : Unsigned (ofFloat y)) :
    Unsigned (ofFloat (x + y)) := by
  rcases hx with hx | ⟨m, e, hx⟩ <;> rcases hy with hy | ⟨m', e', hy⟩
  · rw [infinite_add hx hy]
    exact .inl rfl
  · exact .inl (infinite_add_finite hx hy)
  · exact .inl (finite_add_infinite hx hy)
  · have hsum := roundsTo_add (isFinite_iff.mpr ⟨_, m, e, hx⟩) (isFinite_iff.mpr ⟨_, m', e', hy⟩)
    rw [hx, hy, toReal_finite, toReal_finite, if_neg Bool.false_ne_true,
      if_neg Bool.false_ne_true] at hsum
    obtain ⟨sign, hholds, hsign⟩ := hsum
    have hx0 : (0 : ℝ) ≤ m * 2 ^ e := by positivity
    have hy0 : (0 : ℝ) ≤ m' * 2 ^ e' := by positivity
    by_cases hzero : (m : ℝ) * 2 ^ e + m' * 2 ^ e' = 0
    · have hm : m = 0 := by
        have : (m : ℝ) * 2 ^ e = 0 := by linarith
        simpa [(zpow_pos (two_pos (α := ℝ)) e).ne'] using this
      have hm' : m' = 0 := by
        have : (m' : ℝ) * 2 ^ e' = 0 := by linarith
        simpa [(zpow_pos (two_pos (α := ℝ)) e').ne'] using this
      rcases unpack_of_finite hx with ⟨s, hs, hs', _⟩ | ⟨s, hpos, _⟩
      · rcases unpack_of_finite hy with ⟨t, ht, ht', _⟩ | ⟨t, hpos, _⟩
        · obtain rfl : s = .positive := sign_inj hs'
          obtain rfl : t = .positive := sign_inj ht'
          rw [add_eq, hs, ht]
          exact .inr ⟨_, _, ofFloat_zero .positive⟩
        · omega
      · omega
    · rw [hsign hzero, decide_eq_false (not_lt.mpr (add_nonneg hx0 hy0))] at hholds
      exact hholds.unsigned

theorem ofFields_ne_nan {field fraction : Nat} (h : field ≠ 2047) :
    ofFields n field fraction ≠ nan := by
  rw [ofFields, if_neg h]
  split <;> simp

theorem pack_ne_nan {u : UnpackedFloat} (h : u ≠ .notANumber) :
    ofFloat (.ofModel (.pack u)) ≠ nan := by
  cases u with
  | notANumber => exact absurd rfl h
  | infinity s => simp [ofFloat_infinity]
  | zero s => simp [ofFloat_zero]
  | finite s m e hm =>
    rw [ofFloat_ofModel, UnpackedFloat.pack]
    split
    · rw [packedInfinity, ofFloat_packComponents]
      simp [ofFields]
    · rename_i hsmall
      have hfield : ¬ 2 ^ 11 ≤ (e + Format.binary64.exponentBias +
        Format.binary64.mantissaBitsWithoutImplicit).toNat + 1 := hsmall
      split
      · rw [ofFloat_packComponents]
        apply ofFields_ne_nan
        rw [BitVec.toNat_ofNat]
        omega
      · rw [ofFloat_packComponents]
        exact ofFields_ne_nan (by decide)

theorem sqrt_eq (x : Float) :
    x.sqrt = .ofModel (.pack (UnpackedFloat.sqrt Format.binary64 x.toModel.unpack)) := rfl

theorem sqrt_nan (h : ofFloat x = nan) : ofFloat x.sqrt = nan := by
  rw [sqrt_eq, unpack_of_nan h]
  exact ofFloat_nan

theorem sqrt_ne_nan (h : Unsigned (ofFloat x)) : ofFloat x.sqrt ≠ nan := by
  rw [sqrt_eq]
  apply pack_ne_nan
  rcases h with h | ⟨m, e, h⟩
  · obtain ⟨s, hs, hsign⟩ := unpack_of_infinite h
    obtain rfl : s = .positive := sign_inj hsign
    rw [hs]
    simp [UnpackedFloat.sqrt]
  · rcases unpack_of_finite h with ⟨s, hs, _⟩ | ⟨s, _, hs, hsign⟩
    · rw [hs]
      simp [UnpackedFloat.sqrt]
    · obtain rfl : s = .positive := sign_inj hsign
      rw [hs]
      simp only [UnpackedFloat.sqrt, roundWithAccuracy]
      split <;> simp

end Double

end EnergyProfile
