import EnergyProfile.Proofs.Settings.Validity

/-!
# The paths in settings

To see settings from a directory changes their paths one by one and nothing else, so it keeps valid
settings valid, and it keeps settings of absolute paths as they are.
-/

namespace EnergyProfile

set_option autoImplicit false

def Scenario.mapPath (f : Path → Path) (s : Scenario) : Scenario :=
  { s with recording := s.recording.map f }

namespace Method

def paths (method : Method) : List Path :=
  method.recording :: method.scenarios.filterMap Scenario.recording

def mapPaths (f : Path → Path) (method : Method) : Method :=
  { method with
    recording := f method.recording
    scenarios := method.scenarios.map (Scenario.mapPath f) }

variable {f g : Path → Path}

theorem mapPaths_congr {method : Method} (h : ∀ p ∈ method.paths, f p = g p) :
    method.mapPaths f = method.mapPaths g := by
  simp only [paths, List.forall_mem_cons] at h
  have hscenarios : method.scenarios.map (Scenario.mapPath f) =
      method.scenarios.map (Scenario.mapPath g) := by
    refine List.map_congr_left fun scenario hscenario => ?_
    cases hrecording : scenario.recording with
    | none => simp [Scenario.mapPath, hrecording]
    | some p =>
      have hp := h.2 p (List.mem_filterMap.mpr ⟨scenario, hscenario, hrecording⟩)
      simp [Scenario.mapPath, hrecording, hp]
  simp [mapPaths, h.1, hscenarios]

theorem paths_mapPaths (method : Method) : (method.mapPaths f).paths = method.paths.map f := by
  simp [paths, mapPaths, List.filterMap_map, List.map_filterMap, Function.comp_def,
    Scenario.mapPath]

theorem mapPaths_mapPaths (method : Method) :
    (method.mapPaths f).mapPaths g = method.mapPaths (g ∘ f) := by
  simp [mapPaths, Scenario.mapPath, Function.comp_def]

theorem mapPaths_id (method : Method) : method.mapPaths id = method := by
  have hscenario : Scenario.mapPath id = id := by
    funext scenario
    simp [Scenario.mapPath]
  simp [mapPaths, hscenario]

end Method

namespace Settings

/-- Where reports go and every recording, those of single scenarios included. -/
def paths (s : Settings) : List Path :=
  s.report.outputDirectory :: s.methods.flatMap Method.paths

/-- The settings with each path replaced. -/
def mapPaths (f : Path → Path) (s : Settings) : Settings :=
  { s with
    methods := s.methods.map (Method.mapPaths f)
    report := { s.report with outputDirectory := f s.report.outputDirectory } }

theorem resolve_eq_mapPaths (base : Path) (s : Settings) :
    s.resolve base = s.mapPaths base.join := rfl

variable {f g : Path → Path} {s : Settings}

theorem mapPaths_congr (h : ∀ p ∈ s.paths, f p = g p) : s.mapPaths f = s.mapPaths g := by
  simp only [paths, List.forall_mem_cons] at h
  have hmethods : s.methods.map (Method.mapPaths f) = s.methods.map (Method.mapPaths g) :=
    List.map_congr_left fun method hmethod => Method.mapPaths_congr fun p hp =>
      h.2 p (List.mem_flatMap.mpr ⟨method, hmethod, hp⟩)
  simp [mapPaths, h.1, hmethods]

@[simp] theorem paths_mapPaths (s : Settings) : (s.mapPaths f).paths = s.paths.map f := by
  simp [paths, mapPaths, List.map_flatMap, List.flatMap_map, Method.paths_mapPaths]

@[simp] theorem mapPaths_mapPaths (s : Settings) :
    (s.mapPaths f).mapPaths g = s.mapPaths (g ∘ f) := by
  simp [mapPaths, Method.mapPaths_mapPaths, Function.comp_def]

@[simp] theorem mapPaths_id (s : Settings) : s.mapPaths id = s := by
  have hmethods : s.methods.map (Method.mapPaths id) = s.methods := by
    rw [List.map_congr_left fun method _ => Method.mapPaths_id method]
    exact List.map_id _
  simp [mapPaths, hmethods]

theorem mapPaths_eq_self (h : ∀ p ∈ s.paths, f p = p) : s.mapPaths f = s := by
  rw [mapPaths_congr (g := id) h, mapPaths_id]

@[simp] theorem numbers_mapPaths (s : Settings) : (s.mapPaths f).numbers = s.numbers := by
  simp [numbers, mapPaths, List.flatMap_map, Method.mapPaths, Scenario.mapPath]

@[simp] theorem validate_mapPaths (s : Settings) : (s.mapPaths f).validate = s.validate := by
  have hbackward (method : Method) : backwardWindow? (method.mapPaths f) = backwardWindow? method := by
    simp only [backwardWindow?, Method.mapPaths, List.zipIdx_map, List.findSome?_map]
    rfl
  have hmethods (methods : List Method) (known : List String) :
      methodsFault? known (methods.map (Method.mapPaths f)) = methodsFault? known methods := by
    induction methods generalizing known with
    | nil => rfl
    | cons method rest ih =>
      rw [List.map_cons, methodsFault?, methodsFault?, hbackward, ih]
      rfl
  simp only [validate, mapPaths, hmethods]

end Settings

end EnergyProfile
