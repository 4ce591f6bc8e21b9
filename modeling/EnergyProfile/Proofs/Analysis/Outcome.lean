import EnergyProfile.Proofs.Analysis.Parts
import EnergyProfile.Proofs.Run.Access
import EnergyProfile.Proofs.Segmentation.Access

/-!
# How an analysis ends

Parameters are checked first and the trace second. What passes both checks is analyzed: every later
step is given data of the length it asks for, so its own checks pass and its reads stay in range.
-/

namespace EnergyProfile

set_option autoImplicit false

variable {α : Type} [Scalar α]

def segment? (values : List α) (p : Params α) : ExceptT (Fault α) Option Segmentation :=
  match p.validate with
  | .error reason => throw (.invalidParameter reason)
  | .ok () =>
    if values = [] then throw (.malformed .emptySegment)
    else ExceptT.lift (Segmentation.ofValues? values p)

/-- An analysis by the strict forms of its steps. It may end with a fault, and it has no outcome at
all where a step would leave its data. -/
def analyze? (trace : Trace α) (p : Params α) : ExceptT (Fault α) Option (Analysis α) := do
  let values := trace.values
  let segmentation ← segment? values p
  let partition ← RunPartition.ofMask? trace segmentation.mask p.earlySamples
  let power ← ExceptT.mk (some (LevelStats.of values segmentation.mask))
  let runs ← summarizeRuns? (energyChannel values p.rate) partition.runs partition.early
  return {
    sampleCount := trace.length
    highCount := partition.highCount
    decimationFactor := segmentation.decimationFactor
    adjustments := segmentation.adjustments
    runs := runs
    power := power
    series := .of runs }

theorem segment?_eq (values : List α) (p : Params α) :
    (segment? values p).run = some (segment values p) := by
  cases hvalid : p.validate with
  | error reason =>
    simp only [segment?, segment, hvalid]
    rfl
  | ok =>
    simp only [segment?, segment, hvalid, Segmentation.ofValues?_eq]
    split <;> rfl

/-- Strict steps that agree with plain ones still do so one after the other. -/
theorem run_bind_eq {ε β γ : Type} {x? : ExceptT ε Option β} {x : Except ε β}
    {f? : β → ExceptT ε Option γ} {f : β → Except ε γ} (hx : x?.run = some x)
    (hf : ∀ b, (f? b).run = some (f b)) : (x? >>= f?).run = some (x >>= f) := by
  rw [ExceptT.run_bind, hx]
  cases x with
  | error reason => rfl
  | ok b => exact hf b

theorem analyze?_eq (trace : Trace α) (p : Params α) :
    (analyze? trace p).run = some (analyze trace p) := by
  refine run_bind_eq (segment?_eq _ _) fun s => ?_
  refine run_bind_eq (RunPartition.ofMask?_eq _ _ _) fun partition => ?_
  refine run_bind_eq rfl fun power => ?_
  exact run_bind_eq (summarizeRuns?_eq _ _ _) fun runs => rfl

/-- No check behind the division of a trace fails: the runs fit the mask, and the levels and
summaries fit the channels. -/
structure ChecksPass (trace : Trace α) (p : Params α) (s : Segmentation) : Prop where
  runs : ∃ partition, RunPartition.ofMask trace s.mask p.earlySamples = .ok partition
  levels : ∃ levels, LevelStats.of trace.values s.mask = .ok levels
  summaries : ∀ partition, RunPartition.ofMask trace s.mask p.earlySamples = .ok partition →
    ∃ summaries, summarizeRuns (energyChannel trace.values p.rate) partition.runs partition.early =
      .ok summaries

theorem checksPass_of_segment {trace : Trace α} {p : Params α} {s : Segmentation}
    (h : segment trace.values p = .ok s) : ChecksPass trace p s := by
  obtain ⟨hvalid, hvalues, rfl⟩ := segment_eq_ok_iff.mp h
  have hne : trace ≠ [] := fun hnil => hvalues (congrArg Trace.values hnil)
  obtain ⟨partition, _, hparts⟩ := exists_analyzed hvalid hne
  exact ⟨⟨partition, hparts.partitioned⟩, ⟨_, levelStats_of_ofMask hparts.partitioned⟩,
    fun _ hpartition => ⟨_, summarizeRuns_of_ofMask hpartition⟩⟩

/-- Only the division of a trace can fail. -/
theorem analyze_eq_error_iff {trace : Trace α} {p : Params α} {fault : Fault α} :
    analyze trace p = .error fault ↔ segment trace.values p = .error fault := by
  cases hs : segment trace.values p with
  | error reason => simp [analyze, hs, bind, Except.bind]
  | ok s =>
    obtain ⟨hvalid, hvalues, -⟩ := segment_eq_ok_iff.mp hs
    obtain ⟨a, ha⟩ := exists_analyze_iff.mpr
      ⟨hvalid, fun hnil => hvalues (congrArg Trace.values hnil)⟩
    simp [ha]

/-- An analysis ends well exactly if the parameters are valid and there are samples. It ends with
the fault of the parameters if they are not, whatever the trace is, and otherwise with that of an
empty trace. It never ends with a fault of a later step, and no step leaves its data. -/
theorem analyze_outcome (trace : Trace α) (p : Params α) :
    ((∃ a, analyze trace p = .ok a) ↔ p.validate = .ok () ∧ trace ≠ []) ∧
      (∀ fault, analyze trace p = .error fault ↔
        (∃ reason, p.validate = .error reason ∧ fault = .invalidParameter reason) ∨
          p.validate = .ok () ∧ trace = [] ∧ fault = .malformed .emptySegment) ∧
      (∀ s, segment trace.values p = .ok s → ChecksPass trace p s) ∧
      (analyze? trace p).run = some (analyze trace p) := by
  refine ⟨exists_analyze_iff, fun fault => ?_, fun _ => checksPass_of_segment, analyze?_eq trace p⟩
  rw [analyze_eq_error_iff, segment_eq_error_iff, Trace.values, List.map_eq_nil_iff]

def pairTrace : Trace Float := [⟨0, 1⟩, ⟨0.01, 2⟩]

/-- One sample a second is made of a hundred. -/
def hundredfold : Params Float := ⟨100, 1, 0, 0.5, 1, 10⟩

/-- Two samples are analyzed although a decimated sample stands for a hundred. Without a rate there
is no analysis, and an empty trace is not complained about. -/
theorem analyze_outcome_of_pair :
    pairTrace.length < hundredfold.factor ∧ (∃ a, analyze pairTrace hundredfold = .ok a) ∧
      (analyze? pairTrace hundredfold).run = some (analyze pairTrace hundredfold) ∧
      analyze [] { hundredfold with rate := 0 } = .error (.invalidParameter (.rate "fs" 0)) := by
  have hvalid : hundredfold.validate = .ok () := by rfl
  have hrefused : { hundredfold with rate := 0 }.validate = .error (.rate "fs" 0) := by rfl
  obtain ⟨hok, -, -, hstrict⟩ := analyze_outcome pairTrace hundredfold
  obtain ⟨-, herror, -⟩ := analyze_outcome [] { hundredfold with rate := 0 }
  exact ⟨by decide +kernel, hok.mpr ⟨hvalid, List.cons_ne_nil _ _⟩, hstrict,
    (herror _).mpr (.inl ⟨_, hrefused, rfl⟩)⟩

end EnergyProfile
