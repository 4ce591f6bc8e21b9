import EnergyProfile.Proofs.Segmentation.Stages
import EnergyProfile.Settings

/-!
# Valid settings

Settings are valid if their parameters are, no two methods have one name, and every window runs
forward. Then all of their numbers are finite.
-/

namespace EnergyProfile

set_option autoImplicit false

def Params.numbers (p : Params Float) : List Float :=
  [p.rate, p.targetRate, p.smoothing, p.threshold, p.shortestGap, p.earlyWindow]

theorem Params.validate_standard : (Params.standard : Params Float).validate = .ok () :=
  (Params.validate_eq_ok_iff _).mpr (by decide +kernel)

namespace Settings

/-- The numbers in settings that are written with a point. -/
def numbers (s : Settings) : List Float :=
  s.params.numbers ++ s.methods.flatMap fun method =>
    method.scenarios.flatMap fun scenario => [scenario.start, scenario.stop]

theorem backwardWindow?_eq_none_iff {method : Method} :
    backwardWindow? method = none ↔ ∀ scenario ∈ method.scenarios, isForward scenario = true := by
  simp only [backwardWindow?, List.findSome?_eq_none_iff]
  constructor
  · intro h scenario hscenario
    obtain ⟨i, hi, rfl⟩ := List.getElem_of_mem hscenario
    have hnone := h (method.scenarios[i], 1 + i) (List.mk_add_mem_zipIdx_iff_getElem?.mpr (by simp))
    simpa using hnone
  · rintro h ⟨scenario, number⟩ hmem
    simp [h scenario (List.fst_mem_of_mem_zipIdx hmem)]

theorem methodsFault?_eq_none_iff {known : List String} {methods : List Method} :
    methodsFault? known methods = none ↔
      (methods.map Method.name).Nodup ∧ (∀ method ∈ methods, method.name ∉ known) ∧
        ∀ method ∈ methods, ∀ scenario ∈ method.scenarios, isForward scenario = true := by
  induction methods generalizing known with
  | nil => simp [methodsFault?]
  | cons method rest ih =>
    by_cases hknown : method.name ∈ known
    · simp [methodsFault?, hknown]
    · simp only [methodsFault?, List.contains_iff_mem, hknown, if_false, Option.or_eq_none_iff,
        backwardWindow?_eq_none_iff, ih, List.map_cons, List.nodup_cons, List.forall_mem_cons]
      grind

theorem validate_eq_ok_iff {s : Settings} :
    s.validate = .ok () ↔
      s.params.validate = .ok () ∧ (s.methods.map Method.name).Nodup ∧
        ∀ method ∈ s.methods, ∀ scenario ∈ method.scenarios, isForward scenario = true := by
  unfold validate
  cases hparams : s.params.validate with
  | error reason => simp
  | ok =>
    have hmethods : methodsFault? [] s.methods = none ↔ _ := methodsFault?_eq_none_iff
    simp only [List.not_mem_nil, not_false_eq_true, implies_true, true_and] at hmethods
    rw [← hmethods]
    cases methodsFault? [] s.methods <;> simp

theorem isFinite_of_validate {s : Settings} (h : s.validate = .ok ()) {x : Float}
    (hx : x ∈ s.numbers) : x.isFinite = true := by
  obtain ⟨hparams, -, hforward⟩ := validate_eq_ok_iff.mp h
  obtain ⟨hrate, htarget, hsmoothing, hgap, hearly, hthreshold⟩ :=
    (Params.validate_eq_ok_iff s.params).mp hparams
  rw [numbers, List.mem_append] at hx
  cases hx with
  | inl hx =>
    simp only [Params.numbers, List.mem_cons, List.not_mem_nil, or_false] at hx
    obtain rfl | rfl | rfl | rfl | rfl | rfl := hx
    exacts [hrate.1, htarget.1, hsmoothing.1, hthreshold, hgap.1, hearly.1]
  | inr hx =>
    simp only [List.mem_flatMap, List.mem_cons, List.not_mem_nil, or_false] at hx
    obtain ⟨method, hmethod, scenario, hscenario, hx⟩ := hx
    have hbounds := hforward method hmethod scenario hscenario
    simp only [isForward, Bool.and_eq_true] at hbounds
    obtain rfl | rfl := hx
    exacts [hbounds.1.1.1, hbounds.1.1.2]

end Settings

end EnergyProfile
