import EnergyProfile.Proofs.Batch.Ending
import EnergyProfile.Proofs.Settings.Validity
import EnergyProfile.Proofs.Steps

/-!
# Selected methods

The names of a batch are looked up before its first method runs, so a batch with an unknown name
does nothing at all. Otherwise each method runs with a recording of its own. What the methods share,
the source and the journal, is not looked at when a report is made, so a report does not tell what
else was selected.
-/

namespace EnergyProfile

set_option autoImplicit false

namespace Settings

variable {s : Settings} {names : List String} {name : String}

/-- Some method has this name. -/
def Has (s : Settings) (name : String) : Prop :=
  ∃ method ∈ s.methods, method.name = name

/-- The first of some names that no method has. -/
def FirstUnknown (s : Settings) (names : List String) (name : String) : Prop :=
  ∃ before rest, names = before ++ name :: rest ∧ (∀ known ∈ before, s.Has known) ∧ ¬ s.Has name

/-- The methods that some names stand for: the first one of each name, or all without any names. -/
def Requests (s : Settings) (names : List String) (methods : List Method) : Prop :=
  if names = [] then methods = s.methods
  else List.Forall₂ (fun name method => s.methods.find? (·.name = name) = some method) names methods

theorem findMethod_eq_ok_iff {method : Method} :
    s.findMethod name = .ok method ↔ s.methods.find? (·.name = name) = some method := by
  unfold findMethod
  cases s.methods.find? (·.name = name) <;> simp

theorem Has.exists_findMethod (h : s.Has name) : ∃ method, s.findMethod name = .ok method := by
  obtain ⟨method, hmem, hname⟩ := h
  cases hfind : s.methods.find? (·.name = name) with
  | some found => exact ⟨found, findMethod_eq_ok_iff.mpr hfind⟩
  | none => exact absurd (by simpa using hname) (List.find?_eq_none.mp hfind method hmem)

theorem mem_of_findMethod {method : Method} (h : s.findMethod name = .ok method) :
    method ∈ s.methods ∧ method.name = name := by
  have hfind := findMethod_eq_ok_iff.mp h
  exact ⟨List.mem_of_find?_eq_some hfind, by simpa using List.find?_some hfind⟩

theorem findMethod_of_not_has (h : ¬ s.Has name) :
    s.findMethod name = .error (.settings (.unknownMethod name)) := by
  unfold findMethod
  split
  · rename_i method hfind
    exact absurd ⟨method, mem_of_findMethod (findMethod_eq_ok_iff.mpr hfind)⟩ h
  · rfl

theorem exists_firstUnknown (hmem : name ∈ names) (h : ¬ s.Has name) :
    ∃ unknown, s.FirstUnknown names unknown := by
  induction names with
  | nil => cases hmem
  | cons first rest ih =>
    by_cases hfirst : s.Has first
    · rcases List.mem_cons.mp hmem with rfl | hmem
      · exact absurd hfirst h
      · obtain ⟨unknown, before, after, rfl, hbefore, hunknown⟩ := ih hmem
        exact ⟨unknown, first :: before, after, rfl, List.forall_mem_cons.mpr ⟨hfirst, hbefore⟩,
          hunknown⟩
    · exact ⟨first, [], rest, rfl, by simp, hfirst⟩

theorem mapM_findMethod_of_unknown {before rest : List String}
    (hbefore : ∀ known ∈ before, s.Has known) (hname : ¬ s.Has name) :
    (before ++ name :: rest).mapM s.findMethod = .error (.settings (.unknownMethod name)) := by
  induction before with
  | nil =>
    rw [List.nil_append, List.mapM_cons, findMethod_of_not_has hname]
    rfl
  | cons known before ih =>
    obtain ⟨hknown, hbefore⟩ := List.forall_mem_cons.mp hbefore
    obtain ⟨method, hmethod⟩ := hknown.exists_findMethod
    rw [List.cons_append, List.mapM_cons, hmethod, ih hbefore]
    rfl

theorem FirstUnknown.select_eq (h : s.FirstUnknown names name) :
    s.select names = .error (.settings (.unknownMethod name)) := by
  obtain ⟨before, rest, rfl, hbefore, hname⟩ := h
  rw [select, if_neg (by simp), mapM_findMethod_of_unknown hbefore hname]

theorem exists_select (h : ∀ name ∈ names, s.Has name) :
    ∃ methods, s.select names = .ok methods := by
  unfold select
  split
  · exact ⟨_, rfl⟩
  · cases hfound : names.mapM s.findMethod with
    | ok methods => exact ⟨methods, rfl⟩
    | error e =>
      obtain ⟨before, name, rest, rfl, -, herror⟩ := exists_of_mapM_eq_error hfound
      obtain ⟨method, hmethod⟩ := (h name (by simp)).exists_findMethod
      rw [hmethod] at herror
      cases herror

theorem select_eq_ok_iff {methods : List Method} :
    s.select names = .ok methods ↔ s.Requests names methods := by
  unfold select Requests
  split
  · rw [Except.ok.injEq, eq_comm]
  · simp only [mapM_eq_ok_iff, findMethod_eq_ok_iff]

end Settings

namespace Batch

variable {m : Type → Type} [Monad m]

theorem run_of_unknown (services : Services m) {settings : Settings} {names : List String}
    {name : String} (h : settings.FirstUnknown names name) (journal : Journal) :
    (run services settings names).run journal =
      pure (.error (.settings (.unknownMethod name)), journal) := by
  rw [run, h.select_eq]
  rfl

variable [LawfulMonad m]

theorem Source.Gives.run {source : Source m} {P : Recording Float → Prop}
    (hsource : source.Gives P) {settings : Settings} {names : List String} {methods : List Method}
    (hselect : settings.select names = .ok methods) (journal : Journal) :
    EndsUnless (∃ method ∈ methods, ∃ s ∈ method.scenarios, Overflows P settings.params s)
      (fun result => ∃ reports, result.1 = .ok reports ∧ List.Forall₂ Reports methods reports)
      ((Batch.run (inWords source) settings names).run journal) := by
  simp only [Batch.run, hselect, StateT.run_bind, StateT.run_pure]
  refine (hsource.runMethods settings.params methods journal).bind fun result hresult => ?_
  exact EndsUnless.pure ⟨result.1, rfl, hresult⟩

/-- A batch with an unknown name ends at once with the first one: no service is called, and the
journal is left as it was. Any other batch ends with a report on each method that was asked for, in
the order of the names, or breaks off at a window of one of their scenarios that needs a size that
no word holds. If answers depend on paths only, it breaks off exactly if some scenario needs such a
size, and otherwise each report is the one on its method alone. -/
theorem run_selected (source : Source m) (settings : Settings) (names : List String)
    (journal : Journal) :
    ((∃ name ∈ names, ¬ settings.Has name) → ∃ name, settings.FirstUnknown names name ∧
      ∀ services : Services (OptionT m), (run services settings names).run journal =
        pure (.error (.settings (.unknownMethod name)), journal)) ∧
    ((∀ name ∈ names, settings.Has name) → ∃ methods, settings.Requests names methods ∧
      ∀ P, source.Gives P →
        EndsUnless (∃ method ∈ methods, ∃ s ∈ method.scenarios, Overflows P settings.params s)
          (fun result => ∃ reports, result.1 = .ok reports ∧ List.Forall₂ Reports methods reports)
          ((run (inWords source) settings names).run journal)) ∧
    ∀ load, source.Steady load → ∀ methods, settings.Requests names methods →
      ∃ journal', YieldsIff
        (∀ method ∈ methods, ∀ s ∈ method.scenarios, Fits load settings.params method s)
        ((run (inWords source) settings names).run journal)
        (.ok (methods.map (reportAlone load settings.params)), journal') := by
  refine ⟨?_, ?_, ?_⟩
  · rintro ⟨name, hmem, hname⟩
    obtain ⟨unknown, hunknown⟩ := Settings.exists_firstUnknown hmem hname
    exact ⟨unknown, hunknown, fun services => run_of_unknown services hunknown journal⟩
  · intro hnames
    obtain ⟨methods, hselect⟩ := Settings.exists_select hnames
    exact ⟨methods, Settings.select_eq_ok_iff.mp hselect, fun P hsource =>
      hsource.run hselect journal⟩
  · intro load hsource methods hmethods
    exact hsource.run (Settings.select_eq_ok_iff.mpr hmethods) journal

/-- The same scenarios under two names. -/
def twins : Settings :=
  { alternatingSettings with
    methods := [{ alternating with name := "a" }, { alternating with name := "b" }] }

/-- The known name ahead of the unknown one does not make the source be asked. -/
theorem run_selected_of_twins :
    ((run (inWords (noting onlyRecording)) twins ["b", "x", "a", "y"]).run
        (.start "b" ⟨"", 0⟩ none)).run [] =
      (some (.error (.settings (.unknownMethod "x")), .start "b" ⟨"", 0⟩ none), []) ∧
      ∃ a b journal, twins.Requests ["b", "a", "b"] [b, a, b] ∧ a.name = "a" ∧ b.name = "b" ∧
        (((run (inWords (noting onlyRecording)) twins ["b", "a", "b"]).run
          (.start "b" ⟨"", 0⟩ none)).run []).1 =
          some (.ok ([b, a, b].map (reportAlone onlyRecording twins.params)), journal) := by
  have hunselected : twins.select ["b", "x", "a", "y"] =
      .error (.settings (.unknownMethod "x")) := by rfl
  have hmissing : ¬ twins.Has "x" := by simp [Settings.Has, twins]
  have hrequested : twins.Requests ["b", "a", "b"]
      [{ alternating with name := "b" }, { alternating with name := "a" },
        { alternating with name := "b" }] :=
    Settings.select_eq_ok_iff.mp rfl
  obtain ⟨hfails, -⟩ := run_selected (noting onlyRecording) twins ["b", "x", "a", "y"]
    (.start "b" ⟨"", 0⟩ none)
  obtain ⟨-, -, hyields⟩ := run_selected (noting onlyRecording) twins ["b", "a", "b"]
    (.start "b" ⟨"", 0⟩ none)
  obtain ⟨name, hname, hrun⟩ := hfails ⟨"x", by simp, hmissing⟩
  obtain ⟨journal, result, hresult, hiff⟩ :=
    hyields onlyRecording steady_noting_onlyRecording _ hrequested
  have hselect := hname.select_eq
  rw [hunselected] at hselect
  cases hselect
  refine ⟨by rw [hrun]; rfl, _, _, journal, hrequested, rfl, rfl, ?_⟩
  exact (yields_stateM_iff.mp hresult []).trans
    (hiff.some_of fun method _ s _ => fits_alternating method s)

def gappedSettings : Settings :=
  { alternatingSettings with params := endlessGap, methods := [gapped] }

/-- Closing gaps of up to ten to the three hundred seconds is valid, and then a batch of a known name
has no report. -/
theorem run_without_report :
    gappedSettings.validate = .ok () ∧ gappedSettings.Has "m" ∧
      gappedSettings.Requests ["m"] [gapped] ∧ (noting gappedRecording).Steady gappedRecording ∧
      (((run (inWords (noting gappedRecording)) gappedSettings ["m"]).run
        (.start "b" ⟨"", 0⟩ none)).run []).1 = none := by
  have hselect : gappedSettings.select ["m"] = .ok [gapped] := by rfl
  obtain ⟨journal, hends⟩ :=
    steady_noting_gappedRecording.run hselect (.start "b" ⟨"", 0⟩ none)
  have hforward : Settings.isForward ⟨0, 2, none⟩ = true := by decide +kernel
  refine ⟨Settings.validate_eq_ok_iff.mpr ⟨validate_endlessGap, ?_, ?_⟩,
    ⟨gapped, List.mem_singleton_self _, rfl⟩, Settings.select_eq_ok_iff.mp hselect,
    steady_noting_gappedRecording, ?_⟩
  · simp [gappedSettings]
  · simp [gappedSettings, gapped, hforward]
  · refine yields_stateM_iff.mp (hends.breaks fun hfits => ?_) []
    have hscenarios := hfits gapped (List.mem_singleton_self _)
    exact not_fits_gapped gapped none (hscenarios ⟨0, 2, none⟩ (List.mem_singleton_self _))

end Batch

end EnergyProfile
