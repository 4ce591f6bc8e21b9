import EnergyProfile.Proofs.Batch.Accounts

/-!
# Where a batch breaks off

A source may answer as it likes, and still a batch ends with a report on each method, unless it comes
to a window of which an analysis needs a size that no word holds. That window belongs to one of the
scenarios, and to a recording such as the source gives.
-/

namespace EnergyProfile.Batch

set_option autoImplicit false

variable {m : Type → Type} [Monad m]

/-- All recordings that a source gives have a property. -/
def Source.Gives (source : Source m) (P : Recording Float → Prop) : Prop :=
  ∀ path, Always (fun answer => ∀ recording, answer = .ok recording → P recording) (source path)

/-- On some recording with a property, a scenario needs a size that no word holds. -/
def Overflows (P : Recording Float → Prop) (p : Params Float) (s : Scenario) : Prop :=
  ∃ recording, P recording ∧ ¬ AnalysisFits (recording.window s.start s.stop p.rate).length p

variable [LawfulMonad m] {source : Source m} {P : Recording Float → Prop} (p : Params Float)

theorem endsUnless_analyzeScenario (source : Source m) (s : Scenario)
    {recording : Recording Float} (h : P recording) :
    EndsUnless (Overflows P p s) (fun _ => True)
      (analyzeScenario (inWords source) p recording s) := by
  unfold analyzeScenario
  by_cases hwindow : recording.window s.start s.stop p.rate = []
  · rw [if_pos hwindow]
    exact EndsUnless.pure trivial
  · rw [if_neg hwindow]
    have hwords := someIff_analyzeInWords? (recording.window s.start s.stop p.rate) p
    have hanalysis : EndsUnless (Overflows P p s) (fun _ => True)
        ((inWords source).analysis (recording.window s.start s.stop p.rate) p) := by
      refine EndsUnless.of_option ?_
      by_cases hfits : AnalysisFits (recording.window s.start s.stop p.rate).length p
      · rw [hwords.some_of hfits]
        trivial
      · rw [hwords.none_of hfits]
        exact ⟨recording, h, hfits⟩
    exact hanalysis.bind fun _ _ => EndsUnless.pure trivial

theorem Source.Gives.runScenario (hsource : source.Gives P) (method : Method) (s : Scenario)
    (number : Nat) (journal : Journal) {held : Held} (hheld : held.All fun _ => P) :
    EndsUnless (Overflows P p s)
      (fun result => (∃ o : Outcome, result.1.1 = some o ∧ o.scenario = number) ∧
        result.1.2.All fun _ => P)
      (((runScenario (inWords source).running p method number s).run held).run journal) := by
  rw [Services.running_eq_seeing]
  rcases held.isFor_cases (method.recordingOf s) with hother | ⟨origin, recording, rfl, hsame⟩
  · rw [run_runScenario_of_not_held _ _ _ _ _ _ hother]
    refine EndsUnless.bind (EndsUnless.of_always (hsource _)) fun answer hanswer => ?_
    cases answer with
    | error e => exact EndsUnless.pure ⟨⟨_, rfl, rfl⟩, Held.all_none⟩
    | ok recording =>
      have hgiven := hanswer recording rfl
      refine (endsUnless_analyzeScenario p source s hgiven).bind fun result _ => ?_
      exact EndsUnless.pure ⟨⟨_, rfl, rfl⟩, Held.all_some hgiven⟩
  · rw [run_runScenario_of_held _ _ _ _ _ _ hsame, ← bind_pure_comp]
    have hgiven := hheld origin recording rfl
    refine (endsUnless_analyzeScenario p source s hgiven).bind fun result _ => ?_
    exact EndsUnless.pure ⟨⟨_, rfl, rfl⟩, hheld⟩

theorem Source.Gives.runScenarios (hsource : source.Gives P) (method : Method)
    (scenarios : List Scenario) (number : Nat) (journal : Journal) {held : Held}
    (hheld : held.All fun _ => P) :
    EndsUnless (∃ s ∈ scenarios, Overflows P p s)
      (fun result => result.1.1.map Outcome.scenario = List.range' number scenarios.length)
      (((runScenarios (inWords source).running p method number scenarios).run held).run
        journal) := by
  induction scenarios generalizing number journal held with
  | nil => exact EndsUnless.pure rfl
  | cons s rest ih =>
    rw [run_runScenarios_cons]
    have hfirst := hsource.runScenario p method s number journal hheld
    refine (hfirst.imp (fun h => ⟨s, List.mem_cons_self, h⟩) fun _ => id).bind fun first h => ?_
    obtain ⟨⟨o, ho, hnumber⟩, hnext⟩ := h
    have hothers := ih (number + 1) first.2 hnext
    refine (hothers.imp ?_ fun _ => id).bind fun others h => EndsUnless.pure ?_
    · rintro ⟨s', hs', h⟩
      exact ⟨s', List.mem_cons_of_mem s hs', h⟩
    · simp [ho, hnumber, h, List.range'_succ]

theorem Source.Gives.runMethods (hsource : source.Gives P) (methods : List Method)
    (journal : Journal) :
    EndsUnless (∃ method ∈ methods, ∃ s ∈ method.scenarios, Overflows P p s)
      (fun result => List.Forall₂ Reports methods result.1)
      ((methods.mapM (runMethod (inWords source).running p)).run journal) := by
  induction methods generalizing journal with
  | nil => exact EndsUnless.pure .nil
  | cons method rest ih =>
    have hmethod : EndsUnless (∃ s ∈ method.scenarios, Overflows P p s)
        (fun result => Reports method result.1)
        ((runMethod (inWords source).running p method).run journal) := by
      simp only [runMethod, StateT.run_bind, StateT.run_pure]
      refine (hsource.runScenarios p method _ 1 journal Held.all_none).bind fun result h => ?_
      exact EndsUnless.pure ⟨rfl, h⟩
    simp only [List.mapM_cons, StateT.run_bind, StateT.run_pure]
    refine (hmethod.imp (fun h => ⟨method, List.mem_cons_self, h⟩) fun _ => id).bind
      fun first hfirst => ?_
    refine ((ih first.2).imp ?_ fun _ => id).bind fun others hothers => ?_
    · rintro ⟨method', hmethod', h⟩
      exact ⟨method', List.mem_cons_of_mem method hmethod', h⟩
    · exact EndsUnless.pure (.cons hfirst hothers)

end EnergyProfile.Batch
