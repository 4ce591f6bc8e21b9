import EnergyProfile.Batch
import EnergyProfile.Proofs.Batch.Independence
import Mathlib.Algebra.GroupWithZero.Nat
import Mathlib.Data.List.Forall2

/-!
# The journal accounts for a batch

Whatever a source of recordings does, the journal of a batch tells what became of each scenario. It
is kept as the batch goes on: if it accounts for the outcomes so far, it accounts for one more, and
nothing else is ever written into it.
-/

namespace EnergyProfile

set_option autoImplicit false

namespace Journal

theorem foldl_note (j : Journal) (method : String) (scenario : Option Nat) (severity : Severity)
    (messages : List String) :
    messages.foldl (fun j message => j.note method scenario severity message) j =
      { j with notes := j.notes ++
          messages.map fun message => ⟨method, scenario, severity, message, j.now⟩ } := by
  induction messages generalizing j with
  | nil => simp
  | cons message rest ih =>
    rw [List.foldl_cons, ih]
    simp [note]

/-- What has to be noted of a scenario: why it failed, or else each window that did not fit, and that
no run was found if there is none. -/
def notesOf (time : Moment) (method : String) (o : Outcome) : List Note :=
  match o.result with
  | .error e => [⟨method, some o.scenario, .error, e.message, time⟩]
  | .ok a =>
    a.adjustments.map (fun x => ⟨method, some o.scenario, .warning, x.message, time⟩) ++
      if a.runs = [] then [⟨method, some o.scenario, .warning, "no high periods found", time⟩]
      else []

/-- The analyses among outcomes of methods. -/
def analysesIn (outcomes : List (String × Outcome)) : List (Analysis Float) :=
  outcomes.filterMap fun entry => entry.2.result.toOption

/-- The counts of a journal are those of some outcomes, and its notes are what has to be noted of
them, in their order. -/
structure Accounts (j : Journal) (outcomes : List (String × Outcome)) : Prop where
  processed : j.scenariosProcessed = outcomes.countP fun entry => entry.2.result.isOk
  failed : j.scenariosFailed = outcomes.countP fun entry => !entry.2.result.isOk
  samples : j.samplesProcessed = ((analysesIn outcomes).map Analysis.sampleCount).sum
  runs : j.runsExtracted = ((analysesIn outcomes).map fun a => a.runs.length).sum
  adjustments :
    j.windowAdjustments = ((analysesIn outcomes).map fun a => a.adjustments.length).sum
  notes : j.notes = outcomes.flatMap fun entry => notesOf j.now entry.1 entry.2

theorem accounts_start (batch : String) (now : Moment) (keptAt : Option Path) :
    (start batch now keptAt).Accounts [] :=
  ⟨rfl, rfl, rfl, rfl, rfl, rfl⟩

theorem Accounts.processed_add_failed {j : Journal} {outcomes : List (String × Outcome)}
    (h : j.Accounts outcomes) : j.scenariosProcessed + j.scenariosFailed = outcomes.length := by
  have hsplit := List.length_eq_countP_add_countP
    (fun entry : String × Outcome => entry.2.result.isOk) (l := outcomes)
  rw [h.processed, h.failed, hsplit]
  simp

theorem Accounts.recordFailure {j : Journal} {outcomes : List (String × Outcome)}
    (h : j.Accounts outcomes) (method : String) (scenario : Nat) (e : Error) :
    (j.recordFailure method scenario e).Accounts
      (outcomes ++ [(method, ⟨scenario, .error e⟩)]) := by
  have hanalyses : analysesIn (outcomes ++ [(method, ⟨scenario, .error e⟩)]) =
      analysesIn outcomes := by
    simp [analysesIn, Except.toOption]
  constructor
  · simp [Journal.recordFailure, note, h.processed, Except.isOk, Except.toBool]
  · simp [Journal.recordFailure, note, h.failed, Except.isOk, Except.toBool]
  · rw [hanalyses]
    exact h.samples
  · rw [hanalyses]
    exact h.runs
  · rw [hanalyses]
    exact h.adjustments
  · simp [Journal.recordFailure, note, h.notes, notesOf]

theorem Accounts.recordScenario {j : Journal} {outcomes : List (String × Outcome)}
    (h : j.Accounts outcomes) (method : String) (scenario : Nat) (a : Analysis Float) :
    (j.recordScenario method scenario a).Accounts
      (outcomes ++ [(method, ⟨scenario, .ok a⟩)]) := by
  have hanalyses : analysesIn (outcomes ++ [(method, ⟨scenario, .ok a⟩)]) =
      analysesIn outcomes ++ [a] := by
    simp [analysesIn, Except.toOption]
  unfold Journal.recordScenario
  rw [foldl_note]
  constructor
  · simp [h.processed, Except.isOk, Except.toBool]
  · simp [h.failed, Except.isOk, Except.toBool]
  · rw [hanalyses]
    simp [h.samples]
  · rw [hanalyses]
    simp [h.runs]
  · rw [hanalyses]
    simp [h.adjustments]
  · have hwarnings : (warnings a).map (fun message =>
        (⟨method, some scenario, .warning, message, j.now⟩ : Note)) =
        notesOf j.now method ⟨scenario, .ok a⟩ := by
      simp only [warnings, notesOf, List.map_append, List.map_map, Function.comp_def]
      congr 1
      cases a.runs <;> simp
    simp [h.notes, hwarnings]

theorem Accounts.journalOutcome {j : Journal} {outcomes : List (String × Outcome)}
    (h : j.Accounts outcomes) (method : String) (o : Outcome) :
    (Batch.journalOutcome j method o).Accounts (outcomes ++ [(method, o)]) := by
  obtain ⟨scenario, result⟩ := o
  cases result with
  | ok a => exact h.recordScenario method scenario a
  | error e => exact h.recordFailure method scenario e

end Journal

namespace Batch

/-- The outcomes of reports in their order, with the method that each belongs to. -/
def outcomesIn (reports : List MethodReport) : List (String × Outcome) :=
  reports.flatMap fun r => r.outcomes.map fun o => (r.method, o)

/-- A report on a method: one outcome for each scenario, counted from one. -/
def Reports (method : Method) (r : MethodReport) : Prop :=
  r.method = method.name ∧
    r.outcomes.map Outcome.scenario = List.range' 1 method.scenarios.length

theorem length_outcomesIn {methods : List Method} {reports : List MethodReport}
    (h : List.Forall₂ Reports methods reports) :
    (outcomesIn reports).length = (methods.map fun method => method.scenarios.length).sum := by
  induction h with
  | nil => rfl
  | cons hfirst _ ih =>
    have hlength := congrArg List.length hfirst.2
    rw [List.length_map, List.length_range'] at hlength
    simp only [outcomesIn, List.flatMap_cons, List.length_append, List.length_map, List.map_cons,
      List.sum_cons] at ih ⊢
    rw [ih, hlength]

variable {m : Type → Type} [Monad m] [LawfulMonad m]

theorem always_runScenarios (services : Services m) (p : Params Float) (method : Method)
    (scenarios : List Scenario) (number : Nat) (held : Held) (journal : Journal) :
    Always (fun result =>
        result.1.1.map Outcome.scenario = List.range' number scenarios.length ∧
        ∀ past, journal.Accounts past →
          result.2.Accounts (past ++ result.1.1.map fun o => (method.name, o)))
      (((runScenarios services.running p method number scenarios).run held).run journal) := by
  induction scenarios generalizing number held journal with
  | nil => exact Always.pure ⟨rfl, by simp⟩
  | cons s rest ih =>
    rw [run_runScenarios_cons]
    refine (always_runScenario p method s number journal services held).bind fun first hfirst => ?_
    obtain ⟨o, ho, hnumber, hjournal⟩ := hfirst
    refine (ih (number + 1) first.1.2 first.2).bind fun others hothers => Always.pure ⟨?_, ?_⟩
    · simp [ho, hnumber, hothers.1, List.range'_succ]
    · intro past hpast
      rw [hjournal] at hothers
      simpa [ho] using hothers.2 _ (hpast.journalOutcome method.name o)

theorem always_runMethod (services : Services m) (p : Params Float) (method : Method)
    (journal : Journal) :
    Always (fun result => Reports method result.1 ∧
        ∀ past, journal.Accounts past → result.2.Accounts (past ++ outcomesIn [result.1]))
      ((runMethod services.running p method).run journal) := by
  simp only [runMethod, StateT.run_bind, StateT.run_pure]
  refine (always_runScenarios services p method method.scenarios 1 none journal).bind
    fun result hresult => Always.pure ⟨⟨rfl, hresult.1⟩, ?_⟩
  simpa [outcomesIn] using hresult.2

theorem always_reports (services : Services m) (p : Params Float) (methods : List Method)
    (journal : Journal) :
    Always (fun result => List.Forall₂ Reports methods result.1 ∧
        ∀ past, journal.Accounts past → result.2.Accounts (past ++ outcomesIn result.1))
      ((methods.mapM (runMethod services.running p)).run journal) := by
  induction methods generalizing journal with
  | nil => exact Always.pure ⟨.nil, by simp [outcomesIn]⟩
  | cons method rest ih =>
    simp only [List.mapM_cons, StateT.run_bind, StateT.run_pure]
    refine (always_runMethod services p method journal).bind fun first hfirst => ?_
    refine (ih first.2).bind fun others hothers => Always.pure ⟨.cons hfirst.1 hothers.1, ?_⟩
    intro past hpast
    simpa [outcomesIn] using hothers.2 _ (hfirst.2 past hpast)

/-- Whatever its services do, a batch of known methods that ends has a report on each of them, and a
journal that accounts for every scenario of the reports and for nothing else. -/
theorem run_accounts (services : Services m) {settings : Settings} {names : List String}
    {methods : List Method} (hselect : settings.select names = .ok methods) (batch : String)
    (now : Moment) (keptAt : Option Path) :
    Always (fun result => ∃ reports, result.1 = .ok reports ∧
        List.Forall₂ Reports methods reports ∧ result.2.Accounts (outcomesIn reports) ∧
        result.2.scenariosProcessed + result.2.scenariosFailed =
          (methods.map fun method => method.scenarios.length).sum)
      ((run services settings names).run (.start batch now keptAt)) := by
  have hstart := Journal.accounts_start batch now keptAt
  simp only [run, hselect, StateT.run_bind, StateT.run_pure]
  refine (always_reports services settings.params methods _).bind fun result hresult => ?_
  have haccounts := hresult.2 [] hstart
  rw [List.nil_append] at haccounts
  refine Always.pure ⟨result.1, rfl, hresult.1, haccounts, ?_⟩
  rw [haccounts.processed_add_failed, length_outcomesIn hresult.1]

/-- Settings with one method, whose scenarios fail in different ways. -/
def alternatingSettings : Settings where
  params := ⟨2, 2, 0.5, 0.5, 0, 0⟩
  columns := .standard
  methods := [alternating]
  report := ⟨1, [], "n/a", ⟨"out"⟩⟩

theorem run_accounts_of_method_named_twice :
    alternatingSettings.select ["m", "m"] = .ok [alternating, alternating] ∧
      ∃ reports journal,
        (((run (inWords (noting onlyRecording)) alternatingSettings ["m", "m"]).run
          (.start "b" ⟨"", 0⟩ none)).run []).1 = some (.ok reports, journal) ∧
        List.Forall₂ Reports [alternating, alternating] reports ∧
        journal.Accounts (outcomesIn reports) ∧
        journal.scenariosProcessed + journal.scenariosFailed = 8 := by
  have hselect : alternatingSettings.select ["m", "m"] = .ok [alternating, alternating] := by
    rfl
  obtain ⟨journal, hends⟩ := steady_noting_onlyRecording.run hselect (.start "b" ⟨"", 0⟩ none)
  obtain ⟨result, hresult, hiff⟩ := hends
  have hsome := (yields_stateM_iff.mp hresult []).trans
    (hiff.some_of fun method _ s _ => fits_alternating method s)
  obtain ⟨reports, hreports, haccounts⟩ :=
    (run_accounts (inWords (noting onlyRecording)) hselect "b" ⟨"", 0⟩ none).of_run_eq_some hsome
  exact ⟨hselect, reports, journal, hsome.trans (by rw [← hreports]), haccounts⟩

end Batch

end EnergyProfile
