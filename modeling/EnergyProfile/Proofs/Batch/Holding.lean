import EnergyProfile.Proofs.Batch.Calls
import EnergyProfile.Proofs.Batch.Independence

/-!
# What a run loads and holds

The calls of a run fall into parts, one for each scenario that it comes to. A part has at most one
call of the source, made while nothing is held, and one of the analysis, made while the last answer
is held. Which calls there are is settled by the paths and the answers so far, so the law of a part
is kept from one scenario to the next, whatever the source answers.
-/

namespace EnergyProfile.Batch

set_option autoImplicit false

/-- The calls that are made for one scenario. -/
structure Part where
  load : Option Loading
  analysis : Option Analyzing

def Part.calls (part : Part) : List Call :=
  part.load.toList.map .load ++ part.analysis.toList.map .analyze

/-- All sizes that the analysis of a part needs have room in words. -/
def Part.Fits (p : Params Float) (part : Part) : Prop :=
  ∀ a, part.analysis = some a → AnalysisFits a.window.length p

/-- The last call of the source. -/
def lastLoad (parts : List Part) : Option Loading :=
  (parts.filterMap Part.load).getLast?

/-- A scenario for which the source has to be asked: the first one, one whose recording is not that
of the scenario before it, or one before which the last call failed. -/
def NeedsLoad (method : Method) (before : List Part) (s : Scenario) : Prop :=
  before = [] ∨
    (∃ s', method.scenarios[before.length - 1]? = some s' ∧
      (method.recordingOf s').same (method.recordingOf s) = false) ∨
    ∃ l e, lastLoad before = some l ∧ l.answer = .error e

/-- The analysis of a scenario while the answer to a call is held, if there is one to be made. -/
def analysisOn (p : Params Float) (s : Scenario) (l : Loading) : Option Analyzing :=
  match l.answer with
  | .error _ => none
  | .ok recording =>
    let window := recording.window s.start s.stop p.rate
    if window = [] then none else some ⟨some (l.path, recording), window⟩

/-- The law of a part, given those before it. -/
structure Proper (p : Params Float) (method : Method) (before : List Part) (s : Scenario)
    (part : Part) : Prop where
  load_iff : part.load.isSome = true ↔ NeedsLoad method before s
  load_eq : ∀ l, part.load = some l → l.held = none ∧ l.path = method.recordingOf s
  analysis_eq : ∃ l, lastLoad (before ++ [part]) = some l ∧
    l.path.same (method.recordingOf s) = true ∧ part.analysis = analysisOn p s l

/-- The parts of a run are those of the scenarios in their order, and each is proper. -/
def ProperParts (p : Params Float) (method : Method) (parts : List Part) : Prop :=
  ∀ before part after, parts = before ++ part :: after →
    ∃ s, method.scenarios[before.length]? = some s ∧ Proper p method before s part

variable {p : Params Float} {method : Method} {parts : List Part} {held : Held} {s : Scenario}

theorem properParts_nil : ProperParts p method [] := by
  intro before part after h
  simp at h

theorem ProperParts.concat (h : ProperParts p method parts) {part : Part}
    (hs : method.scenarios[parts.length]? = some s) (hpart : Proper p method parts s part) :
    ProperParts p method (parts ++ [part]) := by
  intro before part' after hsplit
  rcases List.eq_nil_or_concat after with rfl | ⟨after', last, rfl⟩
  · obtain ⟨rfl, hlast⟩ := List.append_inj' hsplit rfl
    rw [← List.singleton_inj.mp hlast]
    exact ⟨s, hs, hpart⟩
  · have hsplit' : parts ++ [part] = (before ++ part' :: after') ++ [last] := by
      simpa using hsplit
    exact h before part' after' (List.append_inj' hsplit' rfl).1

@[simp] theorem lastLoad_concat (parts : List Part) (part : Part) :
    lastLoad (parts ++ [part]) = part.load.or (lastLoad parts) := by
  cases h : part.load <;> simp [lastLoad, h]

/-- What a call of the source leaves held. -/
def Loading.kept (l : Loading) : Held :=
  l.answer.toOption.map fun recording => (l.path, recording)

/-- What is held when some scenarios are done is what the last call has left, and that call was for
the path of the last one of them. -/
def Recent (method : Method) (parts : List Part) (held : Held) : Prop :=
  (parts = [] ∧ held = none) ∨
    ∃ s l, method.scenarios[parts.length - 1]? = some s ∧ parts ≠ [] ∧
      lastLoad parts = some l ∧ l.path.same (method.recordingOf s) = true ∧ held = l.kept

theorem Recent.isFor_eq_false_iff (h : Recent method parts held) (s : Scenario) :
    held.isFor (method.recordingOf s) = false ↔ NeedsLoad method parts s := by
  unfold NeedsLoad
  rcases h with ⟨rfl, rfl⟩ | ⟨s', l, hs', hne, hlast, hsame, rfl⟩
  · simp [Held.isFor]
  · have hcongr := Path.same_congr hsame (method.recordingOf s)
    cases hanswer : l.answer with
    | error e => simp [Held.isFor, Loading.kept, Except.toOption, hlast, hanswer]
    | ok recording =>
      simp [Held.isFor, Loading.kept, Except.toOption, hlast, hanswer, hne, hs', hcongr]

/-- The part of a scenario that is analyzed on the answer to the last call, which it has made itself
unless the recording was held. -/
theorem Recent.proper (h : Recent method parts held) {load : Option Loading} {l : Loading}
    (hiff : load.isSome = true ↔ held.isFor (method.recordingOf s) = false)
    (hload : ∀ l, load = some l → l.held = none ∧ l.path = method.recordingOf s)
    (hlast : load.or (lastLoad parts) = some l)
    (hsame : l.path.same (method.recordingOf s) = true) :
    Proper p method parts s ⟨load, analysisOn p s l⟩ where
  load_iff := hiff.trans (h.isFor_eq_false_iff s)
  load_eq := hload
  analysis_eq := ⟨l, by rw [lastLoad_concat, hlast], hsame, rfl⟩

theorem Proper.recent {part : Part} {l : Loading} (hpart : Proper p method parts s part)
    (hs : method.scenarios[parts.length]? = some s)
    (hlast : part.load.or (lastLoad parts) = some l) :
    Recent method (parts ++ [part]) l.kept := by
  obtain ⟨l', hlast', hsame, -⟩ := hpart.analysis_eq
  rw [lastLoad_concat, hlast] at hlast'
  obtain rfl := Option.some.inj hlast'
  exact .inr ⟨s, l, by simpa using hs, by simp, by rw [lastLoad_concat, hlast], hsame, rfl⟩

theorem Recent.exists_last {origin : Path} {recording : Recording Float}
    (h : Recent method parts (some (origin, recording))) :
    ∃ l, lastLoad parts = some l ∧ l.path = origin ∧ l.answer = .ok recording ∧
      l.kept = some (origin, recording) := by
  rcases h with ⟨-, h⟩ | ⟨s', l, -, -, hlast, -, hkept⟩
  · cases h
  · refine ⟨l, hlast, ?_⟩
    cases hanswer : l.answer with
    | error e => simp [Loading.kept, hanswer, Except.toOption] at hkept
    | ok recording' =>
      simp only [Loading.kept, hanswer, Except.toOption, Option.map_some, Option.some.injEq,
        Prod.mk.injEq] at hkept ⊢
      exact ⟨hkept.1.symm, congrArg Except.ok hkept.2.symm, hkept.1.symm, hkept.2.symm⟩

variable {m : Type → Type} [Monad m] [LawfulMonad m]

theorem always_analyzeScenario_noted (source : Source m) {l : Loading}
    {recording : Recording Float} (hanswer : l.answer = .ok recording) (calls : List Call) :
    Always (fun result =>
        result.2 = calls ++ (analysisOn p s l).toList.map .analyze ∧
        (result.1.isSome = true ↔
          ∀ a, analysisOn p s l = some a → AnalysisFits a.window.length p))
      ((analyzeScenario (noted source l.kept) p recording s).run.run calls) := by
  have hkept : l.kept = some (l.path, recording) := by
    simp [Loading.kept, hanswer, Except.toOption]
  unfold analyzeScenario analysisOn
  simp only [hanswer, hkept]
  by_cases h : recording.window s.start s.stop p.rate = []
  · rw [if_pos h, if_pos h]
    exact Always.pure (by simp)
  · rw [if_neg h, if_neg h]
    have hwords := someIff_analyzeInWords? (recording.window s.start s.stop p.rate) p
    rw [run_bind_noting, run_analysis_noted, pure_bind]
    by_cases hfits : AnalysisFits (recording.window s.start s.stop p.rate).length p
    · rw [hwords.some_of hfits]
      exact Always.pure (by simp [hfits])
    · rw [hwords.none_of hfits]
      exact Always.pure (by simp [hfits])

/-- A proper part that calls are extended by. If it breaks the run off, its analysis needs a size that
no word holds. -/
def Extended (p : Params Float) (method : Method) (parts : List Part) (s : Scenario)
    (calls : List Call)
    (result : Option ((Option Outcome × Held) × Journal) × List Call) : Prop :=
  ∃ part, result.2 = calls ++ part.calls ∧ Proper p method parts s part ∧
    result.1.elim (¬ part.Fits p)
      fun r => part.Fits p ∧ Recent method (parts ++ [part]) r.1.2

/-- The part of a scenario ends with the analysis. -/
theorem Proper.always_extended {load : Option Loading} {l : Loading}
    (h : Proper p method parts s ⟨load, analysisOn p s l⟩)
    (hs : method.scenarios[parts.length]? = some s) (hlast : load.or (lastLoad parts) = some l)
    {recording : Recording Float} (hanswer : l.answer = .ok recording) (source : Source m)
    (f : Except Error (Analysis Float) → (Option Outcome × Held) × Journal)
    (hf : ∀ result, (f result).1.2 = l.kept) (calls : List Call) :
    Always (Extended p method parts s calls)
      ((f <$> analyzeScenario (noted source l.kept) p recording s).run.run
        (calls ++ load.toList.map .load)) := by
  rw [← bind_pure_comp, run_bind_noting]
  refine (always_analyzeScenario_noted source hanswer _).bind fun result hresult => ?_
  obtain ⟨hcalls, hfits⟩ := hresult
  have hextended : result.2 = calls ++ Part.calls ⟨load, analysisOn p s l⟩ := by
    rw [hcalls, List.append_assoc]
    rfl
  cases hended : result.1 with
  | none =>
    refine Always.pure ⟨_, hextended, h, fun hroom => ?_⟩
    rw [hended] at hfits
    cases hfits.mpr hroom
  | some a =>
    refine Always.pure ⟨_, hextended, h, hfits.mp (by rw [hended]; rfl), ?_⟩
    rw [hf]
    exact h.recent hs hlast

theorem Recent.runScenario (h : Recent method parts held)
    (hs : method.scenarios[parts.length]? = some s) (source : Source m) (number : Nat)
    (journal : Journal) (calls : List Call) :
    Always (Extended p method parts s calls)
      ((((runScenario (watched source) p method number s).run held).run journal).run.run
        calls) := by
  rcases held.isFor_cases (method.recordingOf s) with hother | ⟨origin, recording, rfl, hsame⟩
  · rw [watched, run_runScenario_of_not_held _ _ _ _ _ _ hother, run_bind_noting, run_source_noted,
      bind_map_left]
    refine (always_true (source (method.recordingOf s))).bind fun answer _ => ?_
    let l : Loading := ⟨none, method.recordingOf s, answer⟩
    have hproper : Proper p method parts s ⟨some l, analysisOn p s l⟩ :=
      h.proper (by simp [hother]) (by rintro _ ⟨⟩; exact ⟨rfl, rfl⟩) rfl (Path.same_self _)
    cases answer with
    | error e =>
      refine Always.pure ⟨_, rfl, hproper, ?_, hproper.recent hs rfl⟩
      intro a ha
      cases ha
    | ok recording =>
      have hrun := hproper.always_extended hs rfl rfl source (fun result =>
        ((some ⟨number, result⟩, l.kept), journalOutcome journal method.name ⟨number, result⟩))
        (fun _ => rfl) calls
      rw [← bind_pure_comp] at hrun
      exact hrun
  · obtain ⟨l, hlast, rfl, hanswer, hkept⟩ := h.exists_last
    have hproper : Proper p method parts s ⟨none, analysisOn p s l⟩ :=
      h.proper (by simp [Held.isFor, hsame]) (by simp) hlast hsame
    have hrun := hproper.always_extended hs hlast hanswer source (fun result =>
      ((some ⟨number, result⟩, l.kept), journalOutcome journal method.name ⟨number, result⟩))
      (fun _ => rfl) calls
    rw [watched, run_runScenario_of_held _ _ _ _ _ _ hsame]
    simpa [hkept] using hrun

/-- The parts of a run that has ended are those of all scenarios. One that has broken off did so with
its last part. -/
def Ended (p : Params Float) (method : Method) (parts : List Part) : Bool → Prop
  | true => parts.length = method.scenarios.length ∧ ∀ part ∈ parts, part.Fits p
  | false => ∃ before last, parts = before ++ [last] ∧ (∀ part ∈ before, part.Fits p) ∧
      ¬ last.Fits p

/-- The calls of a run fall into proper parts, and end as the run does. -/
def HoldsOne (p : Params Float) (method : Method) (ended : Bool) (calls : List Call) : Prop :=
  ∃ parts, calls = parts.flatMap Part.calls ∧ ProperParts p method parts ∧
    Ended p method parts ended

/-- What is said of a run by its calls and by whether it ends stays true when more is made of its
result. -/
theorem always_bind_pure {β γ : Type} {x : Noting m β} {calls : List Call}
    (Q : Bool → List Call → Prop)
    (h : Always (fun result => Q result.1.isSome result.2) (x.run.run calls)) (g : β → γ) :
    Always (fun result => Q result.1.isSome result.2)
      ((x >>= fun b => pure (g b)).run.run calls) := by
  rw [run_bind_noting]
  refine h.bind fun result hresult => ?_
  cases hended : result.1 with
  | none =>
    rw [hended] at hresult
    exact Always.pure hresult
  | some b =>
    rw [hended] at hresult
    exact Always.pure hresult

/-- Scenario by scenario, whatever the source answers. -/
theorem always_runScenarios_watched (source : Source m) (done : List Scenario)
    {scenarios : List Scenario} (hscenarios : method.scenarios = done ++ scenarios)
    (hdone : parts.length = done.length) (hparts : ProperParts p method parts)
    (hfits : ∀ part ∈ parts, part.Fits p) (hrecent : Recent method parts held) (number : Nat)
    (journal : Journal) :
    Always (fun result => HoldsOne p method result.1.isSome result.2)
      ((((runScenarios (watched source) p method number scenarios).run held).run journal).run.run
        (parts.flatMap Part.calls)) := by
  induction scenarios generalizing done parts held number journal with
  | nil =>
    rw [List.append_nil] at hscenarios
    exact Always.pure ⟨parts, rfl, hparts, by rw [hscenarios, hdone], hfits⟩
  | cons s rest ih =>
    have hs : method.scenarios[parts.length]? = some s := by
      rw [hscenarios, hdone]
      simp
    rw [run_runScenarios_cons, run_bind_noting]
    refine (hrecent.runScenario hs source number journal _).bind fun first hfirst => ?_
    obtain ⟨part, hcalls, hproper, hended⟩ := hfirst
    have hconcat := hparts.concat hs hproper
    rw [← List.flatMap_singleton Part.calls part, ← List.flatMap_append] at hcalls
    cases hfirst : first.1 with
    | none =>
      rw [hfirst] at hended
      exact Always.pure ⟨_, hcalls, hconcat, parts, part, rfl, hfits, hended⟩
    | some r =>
      rw [hfirst] at hended
      obtain ⟨hpart, hnext⟩ := hended
      have hall : ∀ part' ∈ parts ++ [part], part'.Fits p := by
        simpa [or_imp, forall_and] using ⟨hfits, hpart⟩
      have hothers := ih (done ++ [s]) (by simp [hscenarios]) (by simp [hdone]) hconcat hall hnext
        (number + 1) r.2
      rw [hcalls, Option.elim_some]
      exact always_bind_pure (HoldsOne p method) hothers _

/-- Watching a run changes nothing about it, and the calls that are seen come in parts, one for each
scenario in their order, in which at most one recording is held at a time and each is loaded only
when it has to be. The run comes to all scenarios, or it breaks off at the first one whose analysis
needs a size that no word holds. -/
theorem runMethod_holdsOne (source : Source m) (p : Params Float) (method : Method)
    (journal : Journal) :
    Forgets ((runMethod (watched source) p method).run journal)
      ((runMethod (inWords source).running p method).run journal) ∧
    Always (fun result => HoldsOne p method result.1.isSome result.2)
      (((runMethod (watched source) p method).run journal).run.run []) := by
  refine ⟨Forgets.runMethod source p method journal, ?_⟩
  simp only [runMethod, StateT.run_bind, StateT.run_pure]
  have hparts : ProperParts p method [] := properParts_nil
  have hrun := always_runScenarios_watched source [] rfl rfl hparts (by simp) (.inl ⟨rfl, rfl⟩) 1
    journal
  exact always_bind_pure (HoldsOne p method) hrun _

/-- A source whose first call fails, whatever is there. -/
def failingFirst (load : Path → Except Error (Recording Float)) : Source (StateM Nat) :=
  fun path calls => (if calls = 0 then .error (.file .notFound) else load path, calls + 1)

/-- One recording throughout, with an empty window before it is named in another spelling. -/
def retried : Method where
  name := "m"
  recording := ⟨"data/a.csv"⟩
  scenarios := [⟨0, 1, none⟩, ⟨5, 6, none⟩, ⟨0, 1, some ⟨"data//a.csv"⟩⟩]

def Call.path? : Call → Option Path
  | .load l => some l.path
  | .analyze _ => none

theorem runMethod_holdsOne_of_failing_first :
    let run := (((runMethod (watched (failingFirst onlyRecording)) ⟨2, 2, 0.5, 0.5, 0, 0⟩
      retried).run (.start "b" ⟨"", 0⟩ none)).run.run [] 0).1
    HoldsOne ⟨2, 2, 0.5, 0.5, 0, 0⟩ retried run.1.isSome run.2 ∧ run.1.isSome = true ∧
      run.2.map Call.path? = [some ⟨"data/a.csv"⟩, some ⟨"data/a.csv"⟩, none] := by
  obtain ⟨-, hrun⟩ := runMethod_holdsOne (failingFirst onlyRecording) ⟨2, 2, 0.5, 0.5, 0, 0⟩
    retried (.start "b" ⟨"", 0⟩ none)
  exact ⟨always_stateM_iff.mp hrun 0, by decide +kernel, by decide +kernel⟩

/-- A run that breaks off in its first scenario has made the calls of that one only. -/
theorem run_runMethod_of_broken (source : Source m) {p : Params Float} {method : Method}
    {s : Scenario} {rest : List Scenario} {recording : Recording Float}
    (hscenarios : method.scenarios = s :: rest)
    (hload : source (method.recordingOf s) = pure (.ok recording))
    (hne : recording.window s.start s.stop p.rate ≠ [])
    (hwords : (analyzeInWords? (recording.window s.start s.stop p.rate) p).run = none)
    (journal : Journal) :
    ((runMethod (watched source) p method).run journal).run.run [] =
      pure (none, [.load ⟨none, method.recordingOf s, .ok recording⟩,
        .analyze ⟨some (method.recordingOf s, recording),
          recording.window s.start s.stop p.rate⟩]) := by
  have hother : Held.isFor none (method.recordingOf s) = false := rfl
  simp only [runMethod, hscenarios, StateT.run_bind, StateT.run_pure, run_runScenarios_cons,
    watched, run_runScenario_of_not_held _ _ _ _ _ _ hother, run_bind_noting, run_source_noted,
    hload, map_pure, pure_bind, Option.elim_some, analyzeScenario, if_neg hne, run_analysis_noted,
    hwords, Option.elim_none, List.nil_append, List.singleton_append]

/-- Two recordings, each with a gap. -/
def twoGapped : Method := ⟨"m", ⟨"a.csv"⟩, [⟨0, 2, none⟩, ⟨0, 2, some ⟨"b.csv"⟩⟩]⟩

/-- Closing gaps of up to ten to the three hundred seconds is valid, and then the run of a method does
not come to its second recording. -/
theorem second_recording_not_loaded :
    endlessGap.validate = .ok () ∧ Path.same ⟨"a.csv"⟩ ⟨"b.csv"⟩ = false ∧
      ((runMethod (watched fun path => (pure (gappedRecording path) : Id _)) endlessGap
        twoGapped).run (.start "b" ⟨"", 0⟩ none)).run.run [] =
          pure (none, [.load ⟨none, ⟨"a.csv"⟩, .ok fiveSamples⟩,
            .analyze ⟨some (⟨"a.csv"⟩, fiveSamples), fiveSamples.window 0 2 endlessGap.rate⟩]) := by
  have hpos : 0 < (fiveSamples.window 0 2 endlessGap.rate).length := by decide +kernel
  have hwords := (someIff_analyzeInWords? (fiveSamples.window 0 2 endlessGap.rate)
    endlessGap).none_of fun hfits =>
      not_sizesFit_endlessGap hpos (hfits validate_endlessGap hpos)
  have hscenarios : twoGapped.scenarios = ⟨0, 2, none⟩ :: [⟨0, 2, some ⟨"b.csv"⟩⟩] := rfl
  have hload : (pure (gappedRecording (twoGapped.recordingOf ⟨0, 2, none⟩)) : Id _) =
      pure (.ok fiveSamples) := rfl
  refine ⟨validate_endlessGap, by decide +kernel, ?_⟩
  exact run_runMethod_of_broken _ hscenarios hload (List.length_pos_iff.mp hpos) hwords _

end EnergyProfile.Batch
