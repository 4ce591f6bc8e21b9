import EnergyProfile.Proofs.Mask.Filling
import EnergyProfile.Proofs.Segmentation.Stages

/-!
# The sizes of a segmentation

Validity bounds no rate and no duration, and so the filter of a decimation and the window of a
closing can be of any size that a word holds. The sizes that are computed from these two are the
ones that may not fit. All the others are bounded by the signal.
-/

namespace EnergyProfile

set_option autoImplicit false

variable {α : Type} [Scalar α]

namespace Signal

@[simp] theorem length_normalize (taps : List α) : (normalize taps).length = taps.length := by
  unfold normalize
  dsimp only
  split
  · rfl
  · exact List.length_map _

@[simp] theorem length_antiAlias (q : Nat) :
    (antiAlias q : List α).length = tapCount (max q 1) := by
  simp [antiAlias, rawTaps]

/-- The sizes of a decimation have room in words: the taps of its filter, and the sample behind the
one that the last tap meets. -/
def FilterRoomy (length q : Nat) : Prop :=
  length = 0 ∨ q ≤ 1 ∨
    tapCount q ≤ maxSize ∧ ∀ i, i * q < length → i * q + sideTaps * q < maxSize

/-- The sizes of a moving average have room in words: the sums, one more than there are samples,
and the sample behind a window. -/
def AverageRoomy (length window : Nat) : Prop :=
  length < maxSize ∧ ∀ i < length, i + (fittedWindow window length - 1) / 2 < maxSize

theorem someIff_tapCountInWords? (q : Nat) :
    SomeIff (tapCount q ≤ maxSize) (tapCountInWords? q) (tapCount q) := by
  have htaps := someIff_size? (2 * sideTaps * q + 1)
  exact (someIff_size? (2 * sideTaps * q)).bind_of htaps fun h => Nat.le_of_succ_le h

theorem someIff_antiAliasInWords? (q : Nat) :
    SomeIff (tapCount (max q 1) ≤ maxSize) (antiAliasInWords? q : Option (List α))
      (antiAlias q) :=
  (someIff_tapCountInWords? (max q 1)).bind_pure fun taps =>
    normalize ((List.range taps).map (rawTap (max q 1)))

theorem someIff_convolveInWords? (taps signal : List α) (q : Nat) :
    SomeIff (∀ i < (signal.length + q - 1) / q, i * q + (taps.length - 1) / 2 < maxSize)
      (convolveInWords? taps signal q) (convolve taps signal q) := by
  let delay := (taps.length - 1) / 2
  let filtered (center : Nat) : α :=
    Scalar.sum ((meetingTaps taps.length signal.length center).map fun k =>
      taps.toArray.getD k (Scalar.ofNat 0) * signal.toArray.getD (center - k) (Scalar.ofNat 0))
  have hbehind (center : Nat) := someIff_of_size (center + 1) fun _ => filtered center
  have hkept (i : Nat) : SomeIff (i * q + delay < maxSize)
      (do
        let start ← size? (i * q)
        let center ← size? (start + delay)
        let _ ← size? (center + 1)
        return filtered center)
      (filtered (i * q + delay)) := by
    refine (someIff_size? (i * q)).bind_of (Q := i * q + delay < maxSize) ?_ (by omega)
    exact (someIff_size? (i * q + delay)).bind_of (hbehind (i * q + delay)) Nat.le_of_lt
  exact (SomeIff.mapM fun i _ => hkept i).congr (by simp only [List.mem_range]; rfl)

theorem someIff_decimateInWords? (signal : List α) (q : Nat) :
    SomeIff (FilterRoomy signal.length q) (decimateInWords? signal q) (decimate signal q) := by
  unfold decimateInWords? decimate
  by_cases hsame : q ≤ 1 ∨ signal = []
  · rw [if_pos hsame, if_pos hsame]
    refine (SomeIff.pure signal).congr (iff_of_true trivial ?_)
    rcases hsame with hsmall | rfl
    · exact Or.inr (Or.inl hsmall)
    · exact Or.inl rfl
  · rw [if_neg hsame, if_neg hsame]
    rw [not_or, ← List.length_eq_zero_iff] at hsame
    obtain ⟨hlarge, hne⟩ := hsame
    have hfactor : max q 1 = q := by omega
    have hdelay : (tapCount q - 1) / 2 = sideTaps * q := by
      unfold tapCount sideTaps
      omega
    have hkept (i : Nat) : i < (signal.length + q - 1) / q ↔ i * q < signal.length := by
      rw [Nat.lt_div_iff_mul_lt (by omega)]
      omega
    refine ((someIff_antiAliasInWords? q).bind (someIff_convolveInWords? _ signal q)).congr ?_
    simp only [length_antiAlias, hfactor, hdelay, hkept]
    constructor
    · intro hroomy
      exact Or.inr (Or.inr hroomy)
    · intro hroomy
      exact (hroomy.resolve_left hne).resolve_left hlarge

theorem someIff_movingAverageInWords? (signal : List α) (window : Nat) :
    SomeIff (AverageRoomy signal.length window) (movingAverageInWords? signal window)
      (movingAverage signal window) := by
  let w := fittedWindow window signal.length
  let ahead := (w - 1) / 2
  let average (reach beyond : Nat) : α :=
    ((runningSums signal).getD (min reach (signal.length - 1) + 1) (Scalar.ofNat 0) -
      (runningSums signal).getD (beyond - w) (Scalar.ofNat 0)) *
        (Scalar.ofNat 1 / Scalar.ofNat w)
  have hsums : SomeIff (signal.length + 1 ≤ maxSize) (runningSumsInWords? signal)
      (runningSums signal) :=
    someIff_of_size _ fun _ => runningSums signal
  have haverage (i : Nat) : SomeIff (i + ahead < maxSize)
      (do
        let reach ← size? (i + ahead)
        let beyond ← size? (reach + 1)
        return average reach beyond)
      (average (i + ahead) (i + ahead + 1)) :=
    (someIff_size? (i + ahead)).bind_of
      (someIff_of_size (i + ahead + 1) fun beyond => average (i + ahead) beyond) Nat.le_of_lt
  have haverages := SomeIff.mapM fun i (_ : i ∈ List.range signal.length) => haverage i
  refine (hsums.bind (haverages.bind (.pure (_, w)))).congr ?_
  simp only [List.mem_range, and_true]
  rfl

end Signal

/-- How many samples a signal has after its decimation. -/
def Params.blocks (p : Params α) (length : Nat) : Nat :=
  (length + p.factor - 1) / p.factor

/-- All sizes that the segmentation of a signal computes have room in words. -/
structure SizesFit (length : Nat) (p : Params α) : Prop where
  filter : Signal.FilterRoomy length p.factor
  average : Signal.AverageRoomy (p.blocks length)
    (Signal.smoothingWindow p.smoothing p.targetRate)
  closing : Mask.Roomy (p.blocks length) p.gapWindow

namespace Segmentation

theorem someIff_ofValuesInWords? (values : List α) (p : Params α) :
    SomeIff (SizesFit values.length p) (ofValuesInWords? values p) (ofValues values p) := by
  have hdecimated := Signal.someIff_decimateInWords? values p.factor
  have haveraged := Signal.someIff_movingAverageInWords? (Signal.decimate values p.factor)
    (Signal.smoothingWindow p.smoothing p.targetRate)
  have hclosed := Mask.someIff_closeGapsInWords? (thresholded values p) p.gapWindow
  rw [Signal.length_decimate _ p.factor_pos] at haveraged
  rw [length_thresholded] at hclosed
  refine (hdecimated.bind (haveraged.bind (hclosed.bind (.pure (ofValues values p))))).congr ?_
  constructor
  · rintro ⟨hfilter, haverage, hclosing, -⟩
    exact ⟨hfilter, haverage, hclosing⟩
  · rintro ⟨hfilter, haverage, hclosing⟩
    exact ⟨hfilter, haverage, hclosing, trivial⟩

end Segmentation

theorem someIff_segmentInWords? {values : List α} {p : Params α} (hvalid : p.validate = .ok ())
    (hne : values ≠ []) :
    SomeIff (SizesFit values.length p) (segmentInWords? values p).run (segment values p) := by
  rw [segment_eq_ok hvalid hne]
  simp only [segmentInWords?, hvalid, if_neg hne]
  exact (Segmentation.someIff_ofValuesInWords? values p).map Except.ok

/-- All sizes that an analysis of some samples computes have room in words. Where the parameters are
not valid or nothing is left to analyze, none is computed. -/
def AnalysisFits (length : Nat) (p : Params α) : Prop :=
  p.validate = .ok () → 0 < length → SizesFit length p

theorem analyzeInWords?_of_error {trace : Trace α} {p : Params α} {fault : Fault α}
    (hwords : (segmentInWords? trace.values p).run = some (.error fault))
    (hsegment : segment trace.values p = .error fault) :
    (analyzeInWords? trace p).run = some (analyze trace p) := by
  have hfails : analyze trace p = .error fault := by
    simp [analyze, hsegment, bind, Except.bind]
  rw [hfails, analyzeInWords?, ExceptT.run_bind, hwords]
  rfl

theorem someIff_analyzeInWords? (trace : Trace α) (p : Params α) :
    SomeIff (AnalysisFits trace.length p) (analyzeInWords? trace p).run (analyze trace p) := by
  have hlast : SomeIff True (some (analyze trace p)) (analyze trace p) := .pure _
  unfold AnalysisFits
  cases hvalid : p.validate with
  | error reason =>
    have hwords : (segmentInWords? trace.values p).run =
        some (.error (.invalidParameter reason)) := by
      simp [segmentInWords?, hvalid]
    rw [analyzeInWords?_of_error hwords (by simp [segment, hvalid])]
    exact hlast.congr (by simp)
  | ok =>
    by_cases hne : trace = []
    · subst hne
      have hwords : (segmentInWords? (Trace.values []) p).run =
          some (.error (.malformed .emptySegment)) := by
        simp [segmentInWords?, hvalid, Trace.values]
      rw [analyzeInWords?_of_error hwords (by simp [segment, hvalid, Trace.values])]
      exact hlast.congr (by simp)
    · have hvalues : trace.values ≠ [] := by simpa [Trace.values] using hne
      have hsegment := someIff_segmentInWords? hvalid hvalues
      rw [segment_eq_ok hvalid hvalues, Trace.length_values] at hsegment
      exact (hsegment.bind hlast).congr (by simp [List.length_pos_iff.mpr hne])

theorem Params.blocks_le (p : Params α) {length : Nat} (hpos : 0 < length) :
    p.blocks length ≤ length := by
  have hone := Nat.le_mul_of_pos_right p.factor hpos
  have hrest := Nat.le_mul_of_pos_left (length - 1) p.factor_pos
  rw [Nat.mul_sub_one] at hrest
  refine Nat.div_le_of_le_mul ?_
  omega

/-- The average is as wide as the signal at most, and reaches half of that ahead. -/
theorem Signal.averageRoomy_of_le {length : Nat} (window : Nat) (hlength : length ≤ maxSize / 2) :
    AverageRoomy length window := by
  unfold AverageRoomy fittedWindow
  unfold maxSize at *
  refine ⟨by omega, fun i hi => ?_⟩
  rw [if_neg (by omega)]
  omega

/-- Of a signal of less than half the largest size, the filter and the closing alone decide. -/
theorem sizesFit_iff {length : Nat} {p : Params α} (hpos : 0 < length)
    (hlength : length ≤ maxSize / 2) :
    SizesFit length p ↔
      Signal.tapCount p.factor ≤ maxSize ∧ Mask.Roomy (p.blocks length) p.gapWindow := by
  have hq := p.factor_pos
  constructor
  · rintro ⟨hfilter, -, hclosing⟩
    refine ⟨?_, hclosing⟩
    rcases hfilter with hzero | hone | ⟨htaps, -⟩
    · omega
    · unfold Signal.tapCount Signal.sideTaps maxSize
      omega
    · exact htaps
  · rintro ⟨htaps, hclosing⟩
    have hblocks := p.blocks_le hpos
    refine ⟨Or.inr (Or.inr ⟨htaps, fun i hi => ?_⟩),
      Signal.averageRoomy_of_le _ (by omega), hclosing⟩
    unfold Signal.tapCount Signal.sideTaps maxSize at *
    omega

theorem sizesFit_of_le {length : Nat} {p : Params α} (hlength : length ≤ maxSize / 8)
    (hfactor : p.factor ≤ maxSize / 32) (hgap : p.gapWindow ≤ maxSize / 8) (hpos : 0 < length) :
    SizesFit length p := by
  have hblocks := p.blocks_le hpos
  refine (sizesFit_iff hpos (by omega)).mpr ⟨?_, Or.inr (Or.inr ⟨?_, fun j hj => ?_⟩)⟩
  · unfold Signal.tapCount Signal.sideTaps
    omega
  · unfold maxSize at *
    omega
  · omega

/-- A segmentation with sizes in words is the segmentation if all its sizes fit, and has no result
otherwise. The taps of the filter and the room of the closing are what may not fit, as long as the
signal has less than half the largest size. -/
theorem segment_inWords {values : List α} {p : Params α} (hvalid : p.validate = .ok ())
    (hne : values ≠ []) :
    SomeIff (SizesFit values.length p) (segmentInWords? values p).run (segment values p) ∧
      (values.length ≤ maxSize / 2 → (SizesFit values.length p ↔
        Signal.tapCount p.factor ≤ maxSize ∧
          Mask.Roomy (p.blocks values.length) p.gapWindow)) := by
  have hpos := List.length_pos_iff.mpr hne
  exact ⟨someIff_segmentInWords? hvalid hne, sizesFit_iff hpos⟩

def halvedRate : Params Float := ⟨8, 4, 0.25, 0.5, 1, 0⟩

theorem segment_inWords_of_halvedRate :
    halvedRate.validate = .ok () ∧ ([1, 1, 0, 0, 1] : List Float) ≠ [] ∧
      SizesFit 5 halvedRate ∧
      SomeIff (SizesFit 5 halvedRate) (segmentInWords? [1, 1, 0, 0, 1] halvedRate).run
        (segment [1, 1, 0, 0, 1] halvedRate) := by
  have hvalid : halvedRate.validate = .ok () := by rfl
  have hne : ([1, 1, 0, 0, 1] : List Float) ≠ [] := by simp
  have hfactor : halvedRate.factor = 2 := by decide +kernel
  have hwindow : halvedRate.gapWindow = 4 := by decide +kernel
  obtain ⟨hresult, hfits⟩ := segment_inWords hvalid hne
  refine ⟨hvalid, hne, (hfits (by decide)).mpr ⟨?_, ?_⟩, hresult⟩
  · rw [hfactor]
    decide
  · rw [Params.blocks, hfactor, hwindow]
    refine Or.inr (Or.inr ⟨by decide, fun j hj => ?_⟩)
    unfold maxSize
    simp at hj
    omega

def endlessGap : Params Float := ⟨4, 4, 0, 0.5, 1e300, 0⟩

def fastRate : Params Float := ⟨1e300, 1, 0, 0.5, 0, 0⟩

theorem validate_endlessGap : endlessGap.validate = .ok () :=
  (Params.validate_eq_ok_iff _).mpr (by decide +kernel)

theorem not_sizesFit_endlessGap {length : Nat} (hpos : 0 < length) :
    ¬ SizesFit length endlessGap := by
  intro hfits
  have hwindow : endlessGap.gapWindow = maxSize := by decide +kernel
  have hroomy := hfits.closing
  rw [hwindow] at hroomy
  have hblocks : 0 < endlessGap.blocks length := Nat.div_pos (by omega) endlessGap.factor_pos
  unfold Mask.Roomy maxSize at hroomy
  omega

/-- Valid parameters for which the padded length and the number of taps are too large for a word. -/
theorem not_sizesFit_of_valid :
    endlessGap.validate = .ok () ∧ maxSize < 5 + 2 * endlessGap.gapWindow ∧
      (segmentInWords? [1, 0, 0, 0, 1] endlessGap).run = none ∧
      fastRate.validate = .ok () ∧ maxSize < Signal.tapCount fastRate.factor ∧
      (segmentInWords? [1, 0, 0, 0, 1] fastRate).run = none := by
  have hrate : fastRate.validate = .ok () :=
    (Params.validate_eq_ok_iff _).mpr (by decide +kernel)
  have hwindow : endlessGap.gapWindow = maxSize := by decide +kernel
  have hfactor : fastRate.factor = maxSize := by decide +kernel
  have hne : ([1, 0, 0, 0, 1] : List Float) ≠ [] := by simp
  refine ⟨validate_endlessGap, by rw [hwindow]; decide, ?_, hrate, by rw [hfactor]; decide, ?_⟩
  · exact (someIff_segmentInWords? validate_endlessGap hne).none_of
      (not_sizesFit_endlessGap (by decide))
  · refine (someIff_segmentInWords? hrate hne).none_of fun hfits => ?_
    have htaps := ((sizesFit_iff (by decide) (by decide)).mp hfits).1
    rw [hfactor] at htaps
    revert htaps
    decide

end EnergyProfile
