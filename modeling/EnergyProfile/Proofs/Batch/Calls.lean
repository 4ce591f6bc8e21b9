import EnergyProfile.Proofs.Batch.Scenarios

/-!
# The calls of a run

The services of a run can note each of their calls, together with what is held when it is made. The
notes outlive a run that breaks off, and forgetting them gives the run of the services themselves.
The source is arbitrary, so it may answer one path differently each time.
-/

namespace EnergyProfile.Batch

set_option autoImplicit false

/-- A call of the source, with what is held when it is made, and its answer. -/
structure Loading where
  held : Held
  path : Path
  answer : Except Error (Recording Float)

structure Analyzing where
  held : Held
  window : Trace Float

inductive Call where
  | load (l : Loading)
  | analyze (a : Analyzing)

variable {m : Type → Type} [Monad m]

abbrev Noting (m : Type → Type) := OptionT (StateT (List Call) m)

/-- The services of a run that holds this. -/
def noted (source : Source m) (held : Held) : Services (Noting m) where
  source path := OptionT.mk do
    let answer ← StateT.lift (source path)
    modify (· ++ [.load ⟨held, path, answer⟩])
    return some answer
  analysis window p := OptionT.mk do
    modify (· ++ [.analyze ⟨held, window⟩])
    return (analyzeInWords? window p).run

def watched (source : Source m) : Services (Running (Noting m)) :=
  .seeing (noted source)

variable {β γ : Type}

theorem run_bind_noting (x : Noting m β) (f : β → Noting m γ) (calls : List Call) :
    (x >>= f).run.run calls = x.run.run calls >>= fun result =>
      result.1.elim (pure (none, result.2)) fun b => (f b).run.run result.2 := by
  rw [OptionT.run_bind, Option.elimM, StateT.run_bind]
  refine bind_congr fun result => ?_
  cases result.1 <;> rfl

variable [LawfulMonad m]

@[simp] theorem run_source_noted (source : Source m) (held : Held) (path : Path)
    (calls : List Call) :
    ((noted source held).source path).run.run calls =
      (fun answer => (some answer, calls ++ [.load ⟨held, path, answer⟩])) <$> source path := by
  simp [noted]

@[simp] theorem run_analysis_noted (source : Source m) (held : Held) (window : Trace Float)
    (p : Params Float) (calls : List Call) :
    ((noted source held).analysis window p).run.run calls =
      pure ((analyzeInWords? window p).run, calls ++ [.analyze ⟨held, window⟩]) := by
  simp [noted]

/-- A computation that notes calls is another one, once its notes are forgotten. -/
def Forgets (x : Noting m β) (y : OptionT m β) : Prop :=
  ∀ calls, Prod.fst <$> x.run.run calls = y.run

namespace Forgets

theorem pure (b : β) : Forgets (Pure.pure b : Noting m β) (Pure.pure b) := by
  intro calls
  simp

theorem bind {x : Noting m β} {y : OptionT m β} {f : β → Noting m γ} {g : β → OptionT m γ}
    (hx : Forgets x y) (hf : ∀ b, Forgets (f b) (g b)) : Forgets (x >>= f) (y >>= g) := by
  intro calls
  rw [run_bind_noting, OptionT.run_bind, Option.elimM, ← hx calls, map_bind, bind_map_left]
  refine bind_congr fun result => ?_
  cases result.1 with
  | none => simp
  | some b => exact hf b result.2

theorem analyzeScenario (source : Source m) (held : Held) (p : Params Float)
    (recording : Recording Float) (s : Scenario) :
    Forgets (analyzeScenario (noted source held) p recording s)
      (analyzeScenario (inWords source) p recording s) := by
  unfold Batch.analyzeScenario
  by_cases h : recording.window s.start s.stop p.rate = []
  · rw [if_pos h, if_pos h]
    exact pure _
  · rw [if_neg h, if_neg h]
    refine bind (fun calls => ?_) fun result => pure _
    simp [inWords]

theorem runScenario (source : Source m) (p : Params Float) (method : Method) (number : Nat)
    (s : Scenario) (held : Held) (journal : Journal) :
    Forgets (((runScenario (watched source) p method number s).run held).run journal)
      (((runScenario (inWords source).running p method number s).run held).run journal) := by
  rw [watched, Services.running_eq_seeing]
  rcases held.isFor_cases (method.recordingOf s) with hother | ⟨origin, recording, rfl, hsame⟩
  · simp only [run_runScenario_of_not_held _ _ _ _ _ _ hother]
    refine bind (fun calls => by simp [inWords]) fun answer => ?_
    cases answer with
    | error e => exact pure _
    | ok recording => exact (analyzeScenario source _ p recording s).bind fun result => pure _
  · rw [run_runScenario_of_held _ _ _ _ _ _ hsame, run_runScenario_of_held _ _ _ _ _ _ hsame,
      ← bind_pure_comp, ← bind_pure_comp]
    exact (analyzeScenario source _ p recording s).bind fun result => pure _

theorem runScenarios (source : Source m) (p : Params Float) (method : Method)
    (scenarios : List Scenario) (number : Nat) (held : Held) (journal : Journal) :
    Forgets (((runScenarios (watched source) p method number scenarios).run held).run journal)
      (((runScenarios (inWords source).running p method number scenarios).run held).run
        journal) := by
  induction scenarios generalizing number held journal with
  | nil => exact pure _
  | cons s rest ih =>
    rw [run_runScenarios_cons, run_runScenarios_cons]
    refine (runScenario source p method number s held journal).bind fun first => ?_
    exact (ih _ _ _).bind fun others => pure _

theorem runMethod (source : Source m) (p : Params Float) (method : Method) (journal : Journal) :
    Forgets ((runMethod (watched source) p method).run journal)
      ((runMethod (inWords source).running p method).run journal) := by
  simp only [Batch.runMethod, StateT.run_bind, StateT.run_pure]
  exact (runScenarios source p method _ 1 none journal).bind fun result => pure _

end Forgets

end EnergyProfile.Batch
