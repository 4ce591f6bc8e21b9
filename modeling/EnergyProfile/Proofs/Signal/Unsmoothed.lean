import EnergyProfile.Proofs.Double.Sums
import EnergyProfile.Proofs.Mask.Upsampling
import EnergyProfile.Proofs.Signal.Locality

/-!
# Signals that are not smoothed

An average over a single sample is not the sample itself: it is what the sample adds to the sum of
those before it. Where the sums are exact this is the same. Elsewhere it may be off by one last place
of the sum, so a sample at the threshold may be found above it, and a small sample behind large ones
may vanish. Behind a sum that has left the range of doubles no sample is high.
-/

namespace EnergyProfile

set_option autoImplicit false

open Double Scalar

namespace Double

variable {x y : Float}

theorem isFinite_of_add (h : (x + y).isFinite) : x.isFinite := by
  by_contra hx
  refine absurd h (Bool.not_eq_true _ ▸ not_isFinite_iff.mpr ?_)
  rcases add_of_not_isFinite (y := y) (by simpa using hx) with hsum | hsum
  · rw [hsum]
    exact not_isFinite_iff.mp (by simpa using hx)
  · exact .inl hsum

theorem lt_mul_one_iff (hx : x.isFinite) : x < y * (ofNat 1 / ofNat 1) ↔ x < y := by
  have hone : ofFloat (ofNat 1 / ofNat 1) = finite false (2 ^ 52) (-52) := by decide +kernel
  cases hy : ofFloat y with
  | nan => exact iff_of_false (not_lt_nan (nan_mul hy)) (not_lt_nan hy)
  | infinite n =>
    have hproduct := infinite_mul hy hone (by decide)
    cases n with
    | false => exact iff_of_true (lt_infinite hx hproduct) (lt_infinite hx hy)
    | true => exact iff_of_false (not_lt_infinite hx hproduct) (not_lt_infinite hx hy)
  | finite n m e =>
    have hfits := Fits.ofFloat hy
    have hscale : ((2 ^ 52 : ℕ) : ℝ) * 2 ^ (-52 : ℤ) = 1 := by norm_num
    have hproduct := holds_mul hy hone
    rw [hscale, mul_one, rounded_of_fits hfits, Bool.bne_false] at hproduct
    have hfinite := hproduct.isFinite_iff.mpr hfits.lt_huge
    rw [lt_iff_toReal hx hfinite, lt_iff_toReal hx (isFinite_iff.mpr ⟨n, m, e, hy⟩),
      hproduct.toReal_eq hfinite, hy, toReal_finite]

/-- A sum takes in a number without rounding it. -/
def TakesExactly (sum x : Float) : Prop :=
  (sum + x).isFinite ∧ (ofFloat (sum + x)).toReal = (ofFloat sum).toReal + (ofFloat x).toReal

/-- The last place of the sum of two doubles. -/
noncomputable def lastPlace (x y : Float) : ℝ :=
  2 ^ unitExponent |(ofFloat x).toReal + (ofFloat y).toReal|

/-- What is left of a sum and a number when the sum is taken away again is off by one last place of
both together. -/
theorem abs_nearest_sub_le_lastPlace {sum x : Float} (hx : x.isFinite)
    (hfinite : (sum + x).isFinite) :
    |nearest ((ofFloat (sum + x)).toReal - (ofFloat sum).toReal) - (ofFloat x).toReal| ≤
      lastPlace sum x := by
  set taken := (ofFloat (sum + x)).toReal - (ofFloat sum).toReal with htaken
  have hsum := (roundsTo_add (isFinite_of_add hfinite) hx).toReal_eq hfinite
  have hlost : |(ofFloat x).toReal - taken| ≤ lastPlace sum x / 2 := by
    have hsub : (ofFloat x).toReal - taken =
        -(nearest ((ofFloat sum).toReal + (ofFloat x).toReal) -
          ((ofFloat sum).toReal + (ofFloat x).toReal)) := by
      rw [htaken, hsum]
      ring
    rw [hsub, abs_neg]
    exact abs_nearest_sub_le _
  have hnearest := abs_nearest_sub_le_abs taken hx
  calc |nearest taken - (ofFloat x).toReal|
      ≤ |nearest taken - taken| + |taken - (ofFloat x).toReal| := abs_sub_le _ _ _
    _ ≤ lastPlace sum x / 2 + lastPlace sum x / 2 := by
        rw [abs_sub_comm taken]
        exact add_le_add (hnearest.trans hlost) hlost
    _ = lastPlace sum x := add_halves _

/-- A finite sum that a number takes beyond the range of doubles leaves it on the side of that
number. -/
theorem infinite_of_add {sum x : Float} (hsum : sum.isFinite) (hx : x.isFinite)
    (hlost : ¬ (sum + x).isFinite) :
    ofFloat (sum + x) = infinite (!less (ofNat 0) x) := by
  obtain ⟨hread, hhuge⟩ := (roundsTo_add hsum hx).eq_infinite hlost
  obtain ⟨n, m, e, hfields⟩ := isFinite_iff.mp hsum
  have hfits := Fits.ofFloat hfields
  have hreal := abs_toReal_finite n m e
  rw [← hfields] at hreal
  have hgrows : |(ofFloat sum).toReal| < |(ofFloat sum).toReal + (ofFloat x).toReal| := by
    by_contra hle
    have hrounded := rounded_mono (abs_nonneg _) (not_lt.mp hle)
    rw [hreal, rounded_of_fits hfits] at hrounded
    exact absurd (hhuge.trans hrounded) (not_le.mpr hfits.lt_huge)
  have hside : (ofFloat sum).toReal + (ofFloat x).toReal < 0 ↔ ¬ less (ofNat 0) x := by
    rw [zero_less_iff hx, not_lt]
    rcases abs_cases (ofFloat sum).toReal with ⟨h, _⟩ | ⟨h, _⟩ <;>
      rcases abs_cases ((ofFloat sum).toReal + (ofFloat x).toReal) with ⟨h', _⟩ | ⟨h', _⟩ <;>
      rw [h, h'] at hgrows <;> constructor <;> intro <;> linarith
  rw [hread]
  cases hless : less (ofNat 0) x with
  | false => rw [decide_eq_true (hside.mpr (by simp [hless])), Bool.not_false]
  | true => rw [decide_eq_false (mt hside.mp (by simp [hless])), Bool.not_true]

end Double

namespace Signal

/-- The sum of the first samples, as it is carried along. -/
def sumBefore {α : Type} [Scalar α] (x : List α) (i : Nat) : α :=
  (x.take i).foldl (· + ·) (ofNat 0)

/-- The state that a sample gets by what it adds to the sum of the samples before it. -/
structure StateBySum (limit sum x : Float) (state : Bool) : Prop where
  exact : TakesExactly sum x → state = less limit x
  clear : (sum + x).isFinite →
    lastPlace sum x < |(ofFloat x).toReal - (ofFloat limit).toReal| → state = less limit x
  overflow : sum.isFinite → ¬ (sum + x).isFinite → state = less (ofNat 0) x
  lost : ¬ sum.isFinite → state = false

theorem stateBySum_of_taken {limit sum x : Float} (hlimit : limit.isFinite) (hx : x.isFinite) :
    StateBySum limit sum x (less limit ((sum + x - sum) * (ofNat 1 / ofNat 1))) := by
  have hstate {y : Float} : less limit y = decide (limit < y) := rfl
  simp only [hstate, lt_mul_one_iff hlimit]
  have hnearest (hfinite : (sum + x).isFinite) : limit < sum + x - sum ↔
      (ofFloat limit).toReal < nearest ((ofFloat (sum + x)).toReal - (ofFloat sum).toReal) :=
    (roundsTo_sub hfinite (isFinite_of_add hfinite)).lt_iff hlimit
  constructor
  · rintro ⟨hfinite, hexact⟩
    rw [hstate, decide_eq_decide, hnearest hfinite, hexact, add_sub_cancel_left, nearest_toReal hx,
      lt_iff_toReal hlimit hx]
  · intro hfinite hclear
    have hoff := abs_le.mp (abs_nearest_sub_le_lastPlace hx hfinite)
    rw [hstate, decide_eq_decide, hnearest hfinite, lt_iff_toReal hlimit hx]
    rcases lt_abs.mp hclear with h | h <;> constructor <;> intro <;> linarith
  · intro hsum hlost
    have hread := infinite_sub (infinite_of_add hsum hx hlost) hsum
    cases hpos : less (ofNat 0) x with
    | false =>
      rw [hpos] at hread
      exact decide_eq_false (not_lt_infinite hlimit hread)
    | true =>
      rw [hpos] at hread
      exact decide_eq_true (lt_infinite hlimit hread)
  · intro hsum
    have hsum : sum.isFinite = false := by simpa using hsum
    have hnan : ofFloat (sum + x - sum) = nan := by
      rcases add_of_not_isFinite (y := x) hsum with h | h
      · exact sub_of_not_isFinite hsum h
      · exact nan_sub h
    exact decide_eq_false (not_lt_nan hnan)

theorem getElem?_movingAverage_of_one {α : Type} [Scalar α] {x : List α} {window i : Nat} {v : α}
    (hone : fittedWindow window x.length = 1) (hv : x[i]? = some v) :
    (movingAverage x window).1[i]? =
      some ((sumBefore x i + v - sumBefore x i) * (ofNat 1 / ofNat 1)) := by
  obtain ⟨hi, rfl⟩ := List.getElem?_eq_some_iff.mp hv
  have hstart : windowStart window x.length i = i := by
    unfold windowStart
    omega
  have hsamples : windowSamples x window i = [x[i]] := by
    rw [windowSamples, hstart, windowStop, hone, show i + (1 - 1) / 2 + 1 = i + 1 from rfl,
      List.drop_take, Nat.add_sub_cancel_left, List.drop_eq_getElem_cons hi]
    rfl
  rw [getElem?_movingAverage hi, hsamples, carriedIn, hstart, hone]
  rfl

end Signal

/-- Without decimation and with a window of at most one sample, a mask is the closed one of states
that each sample gets by what it adds to the sum of those before it. If all sums are exact it is the
closed mask of the signal itself. -/
theorem segment_unsmoothed {values : List Float} {p : Params Float} (hvalid : p.validate = .ok ())
    (hne : values ≠ []) (hfinite : ∀ x ∈ values, x.isFinite)
    (hfactor : Signal.decimationFactor p.rate p.targetRate = 1)
    (hwindow : Signal.smoothingWindow p.smoothing p.targetRate ≤ 1) :
    ∃ s states, segment values p = .ok s ∧ s.decimationFactor = 1 ∧ s.smoothingWindow = 1 ∧
      s.mask = Mask.closeGaps states s.closingWindow ∧ states.length = values.length ∧
      (∀ i x, values[i]? = some x → ∃ state, states[i]? = some state ∧
        Signal.StateBySum p.threshold (Signal.sumBefore values i) x state) ∧
      ((∀ i x, values[i]? = some x → TakesExactly (Signal.sumBefore values i) x) →
        s.mask = Mask.closeGaps (Mask.threshold values p.threshold) s.closingWindow) := by
  have hlength : 0 < values.length := List.length_pos_iff.mpr hne
  have hone : Signal.fittedWindow (Signal.smoothingWindow p.smoothing p.targetRate)
      values.length = 1 := by
    unfold Signal.fittedWindow
    rw [if_neg (by omega)]
    omega
  have hlimit := ((p.validate_eq_ok_iff).mp hvalid).2.2.2.2.2
  have hq : p.factor = 1 := hfactor
  have hstates : (Segmentation.thresholded values p).length = values.length := by
    rw [Segmentation.length_thresholded, hq]
    simp
  have hstate (i : Nat) (x : Float) (hx : values[i]? = some x) :
      ∃ state, (Segmentation.thresholded values p)[i]? = some state ∧
        Signal.StateBySum p.threshold (Signal.sumBefore values i) x state := by
    have hsample := hfinite x (List.mem_of_getElem? hx)
    refine ⟨_, ?_, Signal.stateBySum_of_taken hlimit hsample⟩
    rw [Segmentation.thresholded, hq, Signal.decimate_one, Mask.threshold, List.getElem?_map,
      Signal.getElem?_movingAverage_of_one hone hx]
    rfl
  have hmask : (Segmentation.ofValues values p).mask =
      Mask.closeGaps (Segmentation.thresholded values p) p.gapWindow := by
    rw [Segmentation.mask_ofValues, hq, ← hstates, ← Mask.length_closeGaps _ p.gapWindow,
      Mask.upsample_one]
  refine ⟨_, _, segment_eq_ok hvalid hne, hfactor, ?_, hmask, hstates, hstate, fun hexact => ?_⟩
  · change Signal.fittedWindow _ (Signal.decimate values p.factor).length = 1
    rw [hq, Signal.decimate_one, hone]
  · have hplain : Segmentation.thresholded values p = Mask.threshold values p.threshold := by
      refine List.ext_getElem? fun i => ?_
      cases hx : values[i]? with
      | none =>
        have hi := List.getElem?_eq_none_iff.mp hx
        rw [List.getElem?_eq_none (by omega), List.getElem?_eq_none (by simpa using hi)]
      | some x =>
        obtain ⟨state, hget, hby⟩ := hstate i x hx
        rw [hget, hby.exact (hexact i x hx), Mask.threshold, List.getElem?_map, hx]
        rfl
    rw [hmask, hplain]
    rfl

def halves : List Float := [0.5, 0.25]

/-- Each sample lies above this or not, and nothing is done to it before. -/
def bareThreshold : Params Float := ⟨4, 4, 0, 0.2, 0, 0⟩

theorem takesExactly_halves (i : Nat) (x : Float) (hx : halves[i]? = some x) :
    TakesExactly (Signal.sumBefore halves i) x := by
  have hhalf : ofFloat 0.5 = finite false (2 ^ 52) (-53) := by decide +kernel
  rcases i with _ | _ | i
  · obtain rfl := Option.some.inj hx
    have hsum : ofFloat (Signal.sumBefore halves 0) = finite false 0 (-1074) := by decide +kernel
    have htaken : ofFloat (Signal.sumBefore halves 0 + 0.5) = finite false (2 ^ 52) (-53) := by
      decide +kernel
    refine ⟨isFinite_iff.mpr ⟨_, _, _, htaken⟩, ?_⟩
    simp only [hsum, hhalf, htaken, toReal_finite]
    norm_num
  · obtain rfl := Option.some.inj hx
    have hquarter : ofFloat 0.25 = finite false (2 ^ 52) (-54) := by decide +kernel
    have hsum : ofFloat (Signal.sumBefore halves 1) = finite false (2 ^ 52) (-53) := by
      decide +kernel
    have htaken : ofFloat (Signal.sumBefore halves 1 + 0.25) =
        finite false (3 * 2 ^ 51) (-53) := by
      decide +kernel
    refine ⟨isFinite_iff.mpr ⟨_, _, _, htaken⟩, ?_⟩
    simp only [hsum, hquarter, htaken, toReal_finite]
    norm_num
  · cases hx

/-- Sums of halves and quarters are exact, so this signal is thresholded as it is. -/
theorem segment_unsmoothed_of_halves :
    bareThreshold.validate = .ok () ∧ halves ≠ [] ∧ (∀ x ∈ halves, x.isFinite) ∧
      Signal.decimationFactor bareThreshold.rate bareThreshold.targetRate = 1 ∧
      Signal.smoothingWindow bareThreshold.smoothing bareThreshold.targetRate ≤ 1 ∧
      ∃ s, segment halves bareThreshold = .ok s ∧
        s.mask = Mask.closeGaps (Mask.threshold halves bareThreshold.threshold)
          s.closingWindow := by
  have hvalid : bareThreshold.validate = .ok () := by rfl
  have hne : halves ≠ [] := List.cons_ne_nil _ _
  have hfinite : ∀ x ∈ halves, x.isFinite := by decide +kernel
  have hfactor : Signal.decimationFactor bareThreshold.rate bareThreshold.targetRate = 1 := by
    decide +kernel
  have hwindow : Signal.smoothingWindow bareThreshold.smoothing bareThreshold.targetRate ≤ 1 := by
    decide +kernel
  obtain ⟨s, states, hs, -, -, -, -, -, hexact⟩ :=
    segment_unsmoothed hvalid hne hfinite hfactor hwindow
  exact ⟨hvalid, hne, hfinite, hfactor, hwindow, s, hs, hexact takesExactly_halves⟩

/-- The second of the samples 0.1 and 0.2 is found above 0.2: it adds a little more than itself. -/
theorem not_unsmoothed_at_threshold :
    bareThreshold.validate = .ok () ∧ (∀ x ∈ ([0.1, 0.2] : List Float), x.isFinite) ∧
      Signal.decimationFactor bareThreshold.rate bareThreshold.targetRate = 1 ∧
      Signal.smoothingWindow bareThreshold.smoothing bareThreshold.targetRate ≤ 1 ∧
      ∃ s, segment [0.1, 0.2] bareThreshold = .ok s ∧ s.mask = [false, true] ∧
        Mask.closeGaps (Mask.threshold [0.1, 0.2] bareThreshold.threshold) s.closingWindow =
          [false, false] := by
  have hvalid : bareThreshold.validate = .ok () := by rfl
  refine ⟨hvalid, by decide +kernel, by decide +kernel, by decide +kernel, _,
    segment_eq_ok hvalid (by simp), ?_, ?_⟩ <;> decide +kernel

end EnergyProfile
