import EnergyProfile.Proofs.Batch.Scenarios
import EnergyProfile.Proofs.Files.Paths
import EnergyProfile.Proofs.Results
import EnergyProfile.Proofs.Segmentation.Words

/-!
# Scenarios do not influence each other

The scenarios of a method share the one recording that is held, and failures let go of it. Whatever
is held, it is what its path would be loaded as, so each outcome is that of the scenario alone.
The source may do as it likes, such as count its calls, as long as its answers depend on paths only.
A run breaks off at a window whose analysis needs a size that no word holds, and only there.
-/

namespace EnergyProfile

set_option autoImplicit false

namespace Batch

/-- A source whose answers depend on the path only, and not on how it is written. -/
structure Source.Steady {m : Type → Type} [Monad m] (source : Source m)
    (load : Path → Except Error (Recording Float)) : Prop where
  yields : ∀ path, Yields (source path) (load path)
  same : ∀ path path', path.same path' = true → load path = load path'

/-- What becomes of a scenario if nothing else is done. -/
def resultAlone (load : Path → Except Error (Recording Float)) (p : Params Float)
    (method : Method) (s : Scenario) : Except Error (Analysis Float) :=
  match load (s.recording.getD method.recording) with
  | .error e => .error e
  | .ok recording =>
    let window := recording.window s.start s.stop p.rate
    if window = [] then
      .error (.data (.malformed (.emptyWindow s.start s.stop recording.size)))
    else (analyze window p).mapError .data

/-- All sizes that a scenario needs have room in words. -/
def Fits (load : Path → Except Error (Recording Float)) (p : Params Float) (method : Method)
    (s : Scenario) : Prop :=
  ∀ recording, load (s.recording.getD method.recording) = .ok recording →
    AnalysisFits (recording.window s.start s.stop p.rate).length p

/-- The outcomes of scenarios, each alone, numbered on from a number. -/
def outcomesAlone (load : Path → Except Error (Recording Float)) (p : Params Float)
    (method : Method) (number : Nat) (scenarios : List Scenario) : List Outcome :=
  (scenarios.zipIdx number).map fun (s, k) => ⟨k, resultAlone load p method s⟩

/-- A recording that is held is the one that its path would be loaded as. -/
def Faithful (load : Path → Except Error (Recording Float)) (held : Held) : Prop :=
  held.All fun path recording => load path = .ok recording

section

variable {load : Path → Except Error (Recording Float)} {p : Params Float} {method : Method}
  {s : Scenario}

theorem fits_of_error {e : Error} (hload : load (method.recordingOf s) = .error e) :
    Fits load p method s := by
  intro recording hrecording
  cases hload.symm.trans hrecording

theorem fits_iff_of_ok {recording : Recording Float}
    (hload : load (method.recordingOf s) = .ok recording) :
    Fits load p method s ↔ AnalysisFits (recording.window s.start s.stop p.rate).length p := by
  constructor
  · exact fun h => h recording hload
  · intro h recording' hrecording'
    rwa [← Except.ok.inj (hload.symm.trans hrecording')]

theorem fits_of_short (hfactor : p.factor ≤ maxSize / 32) (hgap : p.gapWindow ≤ maxSize / 8)
    (hshort : ∀ path recording, load path = .ok recording → recording.size ≤ maxSize / 8) :
    Fits load p method s := by
  intro recording hload _ hpos
  have hsize := hshort _ recording hload
  have hlength : (recording.window s.start s.stop p.rate).length ≤ recording.size := by
    simp only [Recording.window, Recording.size, List.length_take, List.length_drop]
    omega
  exact sizesFit_of_le (by omega) hfactor hgap hpos

theorem resultAlone_of_error {e : Error} (hload : load (method.recordingOf s) = .error e) :
    resultAlone load p method s = .error e := by
  unfold Method.recordingOf at hload
  rw [resultAlone, hload]

end

variable {m : Type → Type} [Monad m] [LawfulMonad m] {source : Source m}
  {load : Path → Except Error (Recording Float)}

/-- The analysis in words of a scenario is that of the scenario alone where it fits. -/
theorem analyzeScenario_yieldsIff (source : Source m) (p : Params Float) (method : Method)
    (s : Scenario) {recording : Recording Float}
    (hload : load (method.recordingOf s) = .ok recording) :
    YieldsIff (Fits load p method s) (analyzeScenario (inWords source) p recording s)
      (resultAlone load p method s) := by
  refine YieldsIff.congr ?_ (fits_iff_of_ok hload).symm
  unfold Method.recordingOf at hload
  unfold analyzeScenario
  simp only [resultAlone, hload]
  by_cases hwindow : recording.window s.start s.stop p.rate = []
  · rw [if_pos hwindow, if_pos hwindow, hwindow]
    exact (YieldsIff.pure _).congr (by simp [AnalysisFits])
  · rw [if_neg hwindow, if_neg hwindow]
    have hanalysis : YieldsIff _ ((inWords source).analysis _ p) _ :=
      YieldsIff.of_someIff (someIff_analyzeInWords? (recording.window s.start s.stop p.rate) p)
    exact hanalysis.bind_pure (Except.mapError Error.data)

/-- A scenario has the outcome it has alone, whatever is held. What is held afterwards is faithful
again. -/
theorem Source.Steady.runScenario (hsource : source.Steady load) (p : Params Float)
    (method : Method) (s : Scenario) (number : Nat) {held : Held} (hheld : Faithful load held)
    (journal : Journal) :
    ∃ held', Faithful load held' ∧
      YieldsIff (Fits load p method s)
        (((runScenario (.seeing fun _ => inWords source) p method number s).run held).run journal)
        ((some ⟨number, resultAlone load p method s⟩, held'),
          journalOutcome journal method.name ⟨number, resultAlone load p method s⟩) := by
  rcases held.isFor_cases (method.recordingOf s) with hother | ⟨origin, recording, rfl, hsame⟩
  · rw [run_runScenario_of_not_held _ _ _ _ _ _ hother]
    have hanswer := hsource.yields (method.recordingOf s)
    cases hload : load (method.recordingOf s) with
    | error e =>
      rw [hload] at hanswer
      rw [resultAlone_of_error hload]
      refine ⟨none, Held.all_none, YieldsIff.after hanswer ((YieldsIff.pure _).congr ?_)⟩
      exact iff_of_true trivial (fits_of_error hload)
    | ok recording =>
      rw [hload] at hanswer
      refine ⟨_, Held.all_some hload, YieldsIff.after hanswer ?_⟩
      exact (analyzeScenario_yieldsIff source p method s hload).bind_pure _
  · have hload : load (method.recordingOf s) = .ok recording := by
      rw [← hsource.same _ _ hsame]
      exact hheld origin recording rfl
    rw [run_runScenario_of_held _ _ _ _ _ _ hsame]
    exact ⟨_, hheld, (analyzeScenario_yieldsIff source p method s hload).map _⟩

/-- The run keeps what is held faithful, so every scenario finds the recording that it names. -/
theorem Source.Steady.runScenarios (hsource : source.Steady load) (p : Params Float)
    (method : Method) (scenarios : List Scenario) (number : Nat) {held : Held}
    (hheld : Faithful load held) (journal : Journal) :
    ∃ held', YieldsIff (∀ s ∈ scenarios, Fits load p method s)
      (((runScenarios (.seeing fun _ => inWords source) p method number scenarios).run held).run
        journal)
      ((outcomesAlone load p method number scenarios, held'),
        (outcomesAlone load p method number scenarios).foldl
          (fun journal o => journalOutcome journal method.name o) journal) := by
  induction scenarios generalizing number held journal with
  | nil => exact ⟨held, (YieldsIff.pure _).congr (by simp)⟩
  | cons s rest ih =>
    obtain ⟨next, hnext, houtcome⟩ := hsource.runScenario p method s number hheld journal
    obtain ⟨held', hothers⟩ := ih (number + 1) hnext
      (journalOutcome journal method.name ⟨number, resultAlone load p method s⟩)
    have houtcomes : outcomesAlone load p method number (s :: rest) =
        ⟨number, resultAlone load p method s⟩ ::
          outcomesAlone load p method (number + 1) rest := by
      simp [outcomesAlone, List.zipIdx_cons]
    rw [houtcomes, List.foldl_cons]
    rw [run_runScenarios_cons]
    exact ⟨held', (houtcome.bind (hothers.bind_pure _)).congr List.forall_mem_cons.symm⟩

theorem Source.Steady.runMethod (hsource : source.Steady load) (p : Params Float)
    (method : Method) (journal : Journal) :
    YieldsIff (∀ s ∈ method.scenarios, Fits load p method s)
      ((runMethod (inWords source).running p method).run journal)
      (⟨method.name, outcomesAlone load p method 1 method.scenarios⟩,
        (outcomesAlone load p method 1 method.scenarios).foldl
          (fun journal o => journalOutcome journal method.name o) journal) := by
  obtain ⟨held, houtcomes⟩ :=
    hsource.runScenarios p method method.scenarios 1 Held.all_none journal
  rw [Services.running_eq_seeing]
  simp only [Batch.runMethod, StateT.run_bind, StateT.run_pure]
  exact houtcomes.bind_pure _

/-- The report on a method by itself. -/
def reportAlone (load : Path → Except Error (Recording Float)) (p : Params Float)
    (method : Method) : MethodReport :=
  ⟨method.name, outcomesAlone load p method 1 method.scenarios⟩

theorem Source.Steady.runMethods (hsource : source.Steady load) (p : Params Float)
    (methods : List Method) (journal : Journal) :
    ∃ journal', YieldsIff (∀ method ∈ methods, ∀ s ∈ method.scenarios, Fits load p method s)
      ((methods.mapM (Batch.runMethod (inWords source).running p)).run journal)
      (methods.map (reportAlone load p), journal') := by
  induction methods generalizing journal with
  | nil => exact ⟨journal, (YieldsIff.pure _).congr (by simp)⟩
  | cons method rest ih =>
    have hmethod := hsource.runMethod p method journal
    obtain ⟨journal', hrest⟩ := ih ((outcomesAlone load p method 1 method.scenarios).foldl
      (fun journal o => journalOutcome journal method.name o) journal)
    simp only [List.mapM_cons, StateT.run_bind, StateT.run_pure]
    refine ⟨journal', (hmethod.bind (hrest.bind_pure _)).congr ?_⟩
    rw [List.forall_mem_cons]

theorem Source.Steady.run (hsource : source.Steady load) {settings : Settings}
    {names : List String} {methods : List Method} (hselect : settings.select names = .ok methods)
    (journal : Journal) :
    ∃ journal', YieldsIff (∀ method ∈ methods, ∀ s ∈ method.scenarios,
        Fits load settings.params method s)
      ((Batch.run (inWords source) settings names).run journal)
      (.ok (methods.map (reportAlone load settings.params)), journal') := by
  obtain ⟨journal', hmethods⟩ := hsource.runMethods settings.params methods journal
  simp only [Batch.run, hselect, StateT.run_bind, StateT.run_pure]
  exact ⟨journal', hmethods.bind_pure _⟩

/-- No scenario is ever skipped, whatever is held and answered. A method has one outcome for each of
its scenarios, numbered from one in their order, and it is that of the scenario alone, if all sizes
that the scenarios need have room in words. Otherwise its run breaks off without a report. -/
theorem runMethod_alone (source : Source m) (p : Params Float) (method : Method)
    (journal : Journal) :
    (∀ (services : Services m) s number held, Always (fun result => result.1.1.isSome = true)
      (((Batch.runScenario services.running p method number s).run held).run journal)) ∧
    ∀ load, source.Steady load →
      YieldsIff (∀ s ∈ method.scenarios, Fits load p method s)
        ((Batch.runMethod (inWords source).running p method).run journal)
        (⟨method.name, outcomesAlone load p method 1 method.scenarios⟩,
          (outcomesAlone load p method 1 method.scenarios).foldl
            (fun journal o => journalOutcome journal method.name o) journal) := by
  refine ⟨fun services s number held => ?_, fun _ hsource => hsource.runMethod p method journal⟩
  refine (always_runScenario p method s number journal services held).imp fun result hresult => ?_
  obtain ⟨o, ho, -⟩ := hresult
  rw [ho]
  rfl

/-- The one recording there is. -/
def onlyRecording : Path → Except Error (Recording Float) := fun path =>
  if path.same ⟨"data/a.csv"⟩ then .ok ⟨[⟨0, 1⟩, ⟨0.5, 0⟩], by simp⟩ else .error (.file .notFound)

/-- A source that notes what it is asked for. -/
def noting (load : Path → Except Error (Recording Float)) : Source (StateM (List Path)) :=
  fun path asked => (load path, path :: asked)

/-- One recording under two spellings, with a missing one and an empty window in between. -/
def alternating : Method where
  name := "m"
  recording := ⟨"data/a.csv"⟩
  scenarios := [⟨0, 1, none⟩, ⟨0, 1, some ⟨"b.csv"⟩⟩, ⟨5, 6, none⟩, ⟨0, 1, some ⟨"data//a.csv"⟩⟩]

theorem steady_noting_onlyRecording : (noting onlyRecording).Steady onlyRecording := by
  refine ⟨fun path => yields_stateM_iff.mpr fun _ => rfl, fun path path' hsame => ?_⟩
  simp only [Path.same, Bool.and_eq_true, beq_iff_eq] at hsame
  have hrecorded : path.same ⟨"data/a.csv"⟩ = path'.same ⟨"data/a.csv"⟩ := by
    simp only [Path.same, hsame]
  rw [onlyRecording, onlyRecording, hrecorded]

theorem fits_alternating (method : Method) (s : Scenario) :
    Fits onlyRecording ⟨2, 2, 0.5, 0.5, 0, 0⟩ method s := by
  refine fits_of_short (by decide +kernel) (by decide +kernel) fun path recording hload => ?_
  unfold onlyRecording at hload
  split at hload
  · rw [← Except.ok.inj hload]
    decide
  · cases hload

theorem runMethod_alone_of_alternating :
    (noting onlyRecording).Steady onlyRecording ∧
      (∀ s ∈ alternating.scenarios, Fits onlyRecording ⟨2, 2, 0.5, 0.5, 0, 0⟩ alternating s) ∧
      (((Batch.runMethod (inWords (noting onlyRecording)).running ⟨2, 2, 0.5, 0.5, 0, 0⟩
          alternating).run (.start "b" ⟨"", 0⟩ none)).run []).1 =
        some (⟨"m", outcomesAlone onlyRecording ⟨2, 2, 0.5, 0.5, 0, 0⟩ alternating 1
            alternating.scenarios⟩,
          (outcomesAlone onlyRecording ⟨2, 2, 0.5, 0.5, 0, 0⟩ alternating 1
            alternating.scenarios).foldl
            (fun journal o => journalOutcome journal "m" o) (.start "b" ⟨"", 0⟩ none)) := by
  have hfits (s : Scenario) (_ : s ∈ alternating.scenarios) := fits_alternating alternating s
  obtain ⟨-, halone⟩ := runMethod_alone (noting onlyRecording) ⟨2, 2, 0.5, 0.5, 0, 0⟩ alternating
    (.start "b" ⟨"", 0⟩ none)
  obtain ⟨result, hresult, hiff⟩ := halone onlyRecording steady_noting_onlyRecording
  exact ⟨steady_noting_onlyRecording, hfits,
    (yields_stateM_iff.mp hresult []).trans (hiff.some_of hfits)⟩

/-- Five samples, with a gap of three of them. -/
def fiveSamples : Recording Float :=
  ⟨[⟨0, 1⟩, ⟨0.25, 0⟩, ⟨0.5, 0⟩, ⟨0.75, 0⟩, ⟨1, 1⟩], List.cons_ne_nil _ _⟩

def gappedRecording : Path → Except Error (Recording Float) := fun _ => .ok fiveSamples

def gapped : Method := ⟨"m", ⟨"a.csv"⟩, [⟨0, 2, none⟩]⟩

theorem steady_noting_gappedRecording : (noting gappedRecording).Steady gappedRecording :=
  ⟨fun _ => yields_stateM_iff.mpr fun _ => rfl, fun _ _ _ => rfl⟩

theorem not_fits_gapped (method : Method) (path : Option Path) :
    ¬ Fits gappedRecording endlessGap method ⟨0, 2, path⟩ := by
  intro hfits
  have hpos : 0 < (fiveSamples.window 0 2 endlessGap.rate).length := by decide +kernel
  exact not_sizesFit_endlessGap hpos (hfits fiveSamples rfl validate_endlessGap hpos)

/-- For a closing of ten to the three hundred seconds, which is valid, a scenario has no outcome. -/
theorem runMethod_without_report :
    (noting gappedRecording).Steady gappedRecording ∧ endlessGap.validate = .ok () ∧
      gapped.scenarios.length = 1 ∧
      (((Batch.runMethod (inWords (noting gappedRecording)).running endlessGap gapped).run
        (.start "b" ⟨"", 0⟩ none)).run []).1 = none := by
  refine ⟨steady_noting_gappedRecording, validate_endlessGap, rfl, ?_⟩
  have hrun := steady_noting_gappedRecording.runMethod endlessGap gapped (.start "b" ⟨"", 0⟩ none)
  refine yields_stateM_iff.mp (hrun.breaks fun hfits => ?_) []
  exact not_fits_gapped gapped none (hfits ⟨0, 2, none⟩ (List.mem_singleton_self _))

end Batch

end EnergyProfile
