import EnergyProfile.Batch
import EnergyProfile.Proofs.Results

/-!
# What becomes of one scenario

A scenario is analyzed on the recording that is held if that is of its path. Otherwise nothing is
held any more when the source is asked, and it is analyzed on the answer. The services of a run may
look at what is held at their calls, but they leave it alone. Either way there is an outcome.
-/

namespace EnergyProfile.Batch

set_option autoImplicit false

variable {m : Type → Type} [Monad m]

/-- Services that may look at what is held. -/
def Services.seeing (services : Held → Services m) : Services (Running m) where
  source path := do StateT.lift (StateT.lift ((services (← get)).source path))
  analysis window p := do StateT.lift (StateT.lift ((services (← get)).analysis window p))

theorem run_runScenarios_cons (services : Services (Running m)) (p : Params Float)
    (method : Method) (number : Nat) (s : Scenario) (rest : List Scenario) (held : Held)
    (journal : Journal) :
    ((runScenarios services p method number (s :: rest)).run held).run journal = (do
      let first ← ((runScenario services p method number s).run held).run journal
      let others ← ((runScenarios services p method (number + 1) rest).run first.1.2).run first.2
      return ((first.1.1.toList ++ others.1.1, others.1.2), others.2)) := by
  simp [runScenarios]

variable [LawfulMonad m]

theorem Services.running_eq_seeing (services : Services m) :
    services.running = .seeing fun _ => services := by
  unfold running seeing
  congr 1
  · funext path
    exact StateT.ext fun held => by simp
  · funext window p
    exact StateT.ext fun held => by simp

section

variable (services : Held → Services m) (held : Held) (journal : Journal)

@[simp] theorem run_source_seeing (path : Path) :
    (((Services.seeing services).source path).run held).run journal =
      (fun answer => ((answer, held), journal)) <$> (services held).source path := by
  simp [Services.seeing]

@[simp] theorem run_analysis_seeing (window : Trace Float) (p : Params Float) :
    (((Services.seeing services).analysis window p).run held).run journal =
      (fun result => ((result, held), journal)) <$> (services held).analysis window p := by
  simp [Services.seeing]

@[simp] theorem run_analyzeScenario (p : Params Float) (recording : Recording Float)
    (s : Scenario) :
    ((analyzeScenario (.seeing services) p recording s).run held).run journal =
      (fun result => ((result, held), journal)) <$>
        analyzeScenario (services held) p recording s := by
  unfold analyzeScenario
  by_cases h : recording.window s.start s.stop p.rate = [] <;> simp [h]

end

theorem Held.isFor_cases (held : Held) (path : Path) :
    held.isFor path = false ∨
      ∃ origin recording, held = some (origin, recording) ∧ origin.same path = true := by
  cases held with
  | none => exact .inl rfl
  | some entry =>
    cases h : entry.1.same path with
    | false => exact .inl h
    | true => exact .inr ⟨entry.1, entry.2, rfl, h⟩

/-- The recording that is held, if there is one, is related to the path that it is held for. -/
def Held.All (P : Path → Recording Float → Prop) (held : Held) : Prop :=
  ∀ origin recording, held = some (origin, recording) → P origin recording

theorem Held.all_none {P : Path → Recording Float → Prop} : Held.All P none := by
  intro origin recording h
  cases h

theorem Held.all_some {P : Path → Recording Float → Prop} {path : Path}
    {recording : Recording Float} (h : P path recording) :
    Held.All P (some (path, recording)) := by
  intro origin held hheld
  obtain ⟨rfl, rfl⟩ := Prod.mk.inj (Option.some.inj hheld)
  exact h

variable (services : Held → Services m) (p : Params Float) (method : Method) (s : Scenario)
  (number : Nat) (journal : Journal)

theorem run_runScenario_of_held {origin : Path} {recording : Recording Float}
    (h : origin.same (method.recordingOf s) = true) :
    ((runScenario (.seeing services) p method number s).run (some (origin, recording))).run
        journal =
      (fun result => ((some ⟨number, result⟩, some (origin, recording)),
        journalOutcome journal method.name ⟨number, result⟩)) <$>
      analyzeScenario (services (some (origin, recording))) p recording s := by
  simp [runScenario, secure, analyzeHeld, Held.isFor, h]

theorem run_runScenario_of_not_held {held : Held}
    (h : held.isFor (method.recordingOf s) = false) :
    ((runScenario (.seeing services) p method number s).run held).run journal = (do
      match ← (services none).source (method.recordingOf s) with
      | .error e =>
        return ((some ⟨number, .error e⟩, none),
          journalOutcome journal method.name ⟨number, .error e⟩)
      | .ok recording =>
        let held : Held := some (method.recordingOf s, recording)
        let result ← analyzeScenario (services held) p recording s
        return ((some ⟨number, result⟩, held),
          journalOutcome journal method.name ⟨number, result⟩)) := by
  simp only [runScenario, secure, h, StateT.run_bind, StateT.run_get, StateT.run_set,
    Bool.false_eq_true, if_false, bind_assoc, pure_bind, run_source_seeing, bind_map_left]
  refine bind_congr fun answer => ?_
  cases answer with
  | error e => simp
  | ok recording => simp [analyzeHeld]

/-- A scenario is never skipped, and the journal is told its outcome. -/
theorem always_runScenario (services : Services m) (held : Held) :
    Always (fun result => ∃ o : Outcome, result.1.1 = some o ∧ o.scenario = number ∧
        result.2 = journalOutcome journal method.name o)
      (((runScenario services.running p method number s).run held).run journal) := by
  rw [Services.running_eq_seeing]
  rcases held.isFor_cases (method.recordingOf s) with hother | ⟨origin, recording, rfl, hsame⟩
  · rw [run_runScenario_of_not_held _ _ _ _ _ _ hother]
    refine (always_true _).bind fun answer _ => ?_
    cases answer with
    | error e => exact Always.pure ⟨_, rfl, rfl, rfl⟩
    | ok recording => exact (always_true _).bind fun result _ => Always.pure ⟨_, rfl, rfl, rfl⟩
  · rw [run_runScenario_of_held _ _ _ _ _ _ hsame]
    exact (always_true _).map fun result _ => ⟨_, rfl, rfl, rfl⟩

end EnergyProfile.Batch
