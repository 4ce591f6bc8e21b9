import EnergyProfile.Proofs.Double.Order
import EnergyProfile.Proofs.Settings.Validity

/-!
# Which fault settings are refused for

Settings with several faults are refused for one of them. Parameters go before methods. The method to
blame is the first one that has the name of an earlier method or a window that does not run forward: for
its name, if an earlier one has it, and else for the first of these windows, which is named by its number.
-/

namespace EnergyProfile

set_option autoImplicit false

open Double

/-- A finite and positive number of samples a second. -/
structure IsRate (x : Float) : Prop where
  finite : x.isFinite
  positive : 0 < (ofFloat x).toReal

/-- A finite length of time. -/
structure IsDuration (x : Float) : Prop where
  finite : x.isFinite
  nonnegative : 0 ≤ (ofFloat x).toReal

namespace Params

/-- A condition, and what is blamed where it does not hold. -/
structure Demand where
  holds : Prop
  fault : ParameterFault Float

/-- What is asked of parameters, in the order in which it is checked. -/
def demands (p : Params Float) : List Demand := [
  ⟨IsRate p.rate, .rate "fs" p.rate⟩,
  ⟨IsRate p.targetRate, .rate "target_fs" p.targetRate⟩,
  ⟨IsDuration p.smoothing, .duration "smooth_s" p.smoothing⟩,
  ⟨IsDuration p.shortestGap, .duration "min_gap_s" p.shortestGap⟩,
  ⟨IsDuration p.earlyWindow, .duration "early_window_ms" p.earlyWindow⟩,
  ⟨p.threshold.isFinite, .threshold p.threshold⟩]

/-- The first of some demands that does not hold is at fault. -/
inductive FirstBroken : List Demand → ParameterFault Float → Prop where
  | here {d : Demand} {rest : List Demand} (h : ¬ d.holds) : FirstBroken (d :: rest) d.fault
  | later {d : Demand} {rest : List Demand} {fault : ParameterFault Float} (h : d.holds)
      (hrest : FirstBroken rest fault) : FirstBroken (d :: rest) fault

/-- A check of some demands. -/
structure Checks (demands : List Demand) (check : Except (ParameterFault Float) Unit) : Prop where
  ok_iff : check = .ok () ↔ ∀ d ∈ demands, d.holds
  error_iff : ∀ fault, check = .error fault ↔ FirstBroken demands fault

theorem Checks.nil : Checks [] (.ok ()) := by
  constructor
  · simp
  · intro fault
    constructor
    · rintro ⟨⟩
    · rintro ⟨⟩

theorem Checks.cons {d : Demand} {passes : Bool} {rest : List Demand}
    {check : Except (ParameterFault Float) Unit} (hpasses : passes = true ↔ d.holds)
    (h : Checks rest check) :
    Checks (d :: rest) ((if passes then .ok () else .error d.fault) >>= fun _ => check) := by
  cases passes with
  | true =>
    have hholds := hpasses.mp rfl
    constructor
    · rw [List.forall_mem_cons, and_iff_right hholds]
      exact h.ok_iff
    · intro fault
      refine (h.error_iff fault).trans ⟨.later hholds, ?_⟩
      rintro (hbroken | ⟨-, hrest⟩)
      · exact absurd hholds hbroken
      · exact hrest
  | false =>
    have hbroken : ¬ d.holds := fun hholds => Bool.false_ne_true (hpasses.mpr hholds)
    constructor
    · refine iff_of_false (by rintro ⟨⟩) ?_
      intro hall
      exact hbroken (hall d List.mem_cons_self)
    · intro fault
      constructor
      · rintro ⟨⟩
        exact .here hbroken
      · rintro (- | ⟨hholds, -⟩)
        · rfl
        · exact absurd hholds hbroken

theorem isRate_iff {x : Float} :
    (Scalar.isFinite x && Scalar.less (Scalar.ofNat 0) x) = true ↔ IsRate x := by
  rw [Bool.and_eq_true]
  constructor
  · rintro ⟨hfinite, hpositive⟩
    exact ⟨hfinite, (zero_less_iff hfinite).mp hpositive⟩
  · rintro ⟨hfinite, hpositive⟩
    exact ⟨hfinite, (zero_less_iff hfinite).mpr hpositive⟩

theorem isDuration_iff {x : Float} :
    (Scalar.isFinite x && !Scalar.less x (Scalar.ofNat 0)) = true ↔ IsDuration x := by
  rw [Bool.and_eq_true, Bool.not_eq_true', ← Bool.not_eq_true]
  constructor
  · rintro ⟨hfinite, hnonnegative⟩
    exact ⟨hfinite, (not_less_zero_iff hfinite).mp hnonnegative⟩
  · rintro ⟨hfinite, hnonnegative⟩
    exact ⟨hfinite, (not_less_zero_iff hfinite).mpr hnonnegative⟩

theorem checks_validate (p : Params Float) : Checks p.demands p.validate := by
  have hthreshold : Checks [⟨p.threshold.isFinite, .threshold p.threshold⟩]
      (checkThreshold p.threshold >>= fun _ => .ok ()) := .cons Iff.rfl .nil
  have hlast : (checkThreshold p.threshold >>= fun _ => .ok ()) = checkThreshold p.threshold := by
    cases checkThreshold p.threshold <;> rfl
  rw [hlast] at hthreshold
  exact .cons isRate_iff <| .cons isRate_iff <| .cons isDuration_iff <| .cons isDuration_iff <|
    .cons isDuration_iff hthreshold

end Params

/-- A window with finite bounds that starts no earlier than the recording and ends after its start. -/
structure Scenario.Forward (s : Scenario) : Prop where
  finite : s.start.isFinite ∧ s.stop.isFinite
  bounds : 0 ≤ (ofFloat s.start).toReal ∧ (ofFloat s.start).toReal < (ofFloat s.stop).toReal

namespace Settings

theorem isForward_iff {s : Scenario} : isForward s = true ↔ s.Forward := by
  simp only [isForward, Bool.and_eq_true, decide_eq_true_eq]
  have hzero : (ofFloat 0).toReal = 0 := by
    change (ofFloat (Scalar.ofNat 0)).toReal = 0
    rw [ofFloat_zero_eq, toReal_zero]
  constructor
  · rintro ⟨⟨⟨hstart, hstop⟩, hnonnegative⟩, hlt⟩
    have hleast := toReal_le_of_le isFinite_zero hstart hnonnegative
    exact ⟨⟨hstart, hstop⟩, hzero ▸ hleast, (lt_iff_toReal hstart hstop).mp hlt⟩
  · rintro ⟨⟨hstart, hstop⟩, hnonnegative, hlt⟩
    refine ⟨⟨⟨hstart, hstop⟩, ?_⟩, (lt_iff_toReal hstart hstop).mpr hlt⟩
    refine le_of_not_lt isFinite_zero hstart fun hnegative => ?_
    have hbelow := (lt_iff_toReal hstart isFinite_zero).mp hnegative
    exact absurd (hbelow.trans_eq hzero) (not_lt.mpr hnonnegative)

theorem forward_of_backwardWindow?_eq_none {method : Method} (h : backwardWindow? method = none) :
    ∀ scenario ∈ method.scenarios, scenario.Forward :=
  fun scenario hscenario => isForward_iff.mp (backwardWindow?_eq_none_iff.mp h scenario hscenario)

/-- The fault of a method whose windows do not all run forward. -/
inductive WindowBlamed (method : Method) : SettingsFault → Prop where
  | first {earlier later : List Scenario} {scenario : Scenario}
      (hscenarios : method.scenarios = earlier ++ scenario :: later)
      (hearlier : ∀ s ∈ earlier, s.Forward) (h : ¬ scenario.Forward) : WindowBlamed method
        (.backwardWindow method.name (earlier.length + 1) scenario.start scenario.stop)

theorem forward_iff_of_zipIdx {scenarios : List Scenario} {first : Nat} :
    (∀ numbered ∈ scenarios.zipIdx first, isForward numbered.1 = true) ↔
      ∀ s ∈ scenarios, s.Forward := by
  rw [← List.forall_mem_map (f := Prod.fst) (P := fun s => isForward s = true),
    List.zipIdx_map_fst]
  exact forall₂_congr fun _ _ => isForward_iff

theorem backwardWindow?_eq_some_iff {method : Method} {fault : SettingsFault} :
    backwardWindow? method = some fault ↔ WindowBlamed method fault := by
  have hnone (numbered : Scenario × Nat) :
      (if isForward numbered.1 then none
        else some (SettingsFault.backwardWindow method.name numbered.2 numbered.1.start
          numbered.1.stop)) = none ↔ isForward numbered.1 = true := by
    simp
  simp only [backwardWindow?, List.findSome?_eq_some_iff, hnone]
  constructor
  · rintro ⟨numbered, x, rest, hsplit, hfault, hbefore⟩
    obtain ⟨earlier, others, hscenarios, rfl, hothers⟩ := List.zipIdx_eq_append_iff.mp hsplit
    obtain ⟨scenario, later, rfl, rfl, -⟩ := List.zipIdx_eq_cons_iff.mp hothers.symm
    split at hfault
    · cases hfault
    · rename_i hbackward
      obtain rfl := Option.some.inj hfault
      rw [Nat.add_comm]
      exact .first hscenarios (forward_iff_of_zipIdx.mp hbefore) (mt isForward_iff.mpr hbackward)
  · rintro ⟨hscenarios, hearlier, h⟩
    rename_i earlier later scenario
    refine ⟨earlier.zipIdx 1, (scenario, earlier.length + 1), later.zipIdx (earlier.length + 2),
      ?_, ?_, forward_iff_of_zipIdx.mpr hearlier⟩
    · rw [hscenarios, List.zipIdx_append, List.zipIdx_cons, Nat.add_comm 1]
    · exact if_neg (mt isForward_iff.mp h)

/-- Methods in which there is nothing to blame. -/
structure MethodsSound (methods : List Method) : Prop where
  names : (methods.map Method.name).Nodup
  windows : ∀ method ∈ methods, ∀ scenario ∈ method.scenarios, scenario.Forward

/-- The fault of methods in which there is something to blame. The methods before the one at fault are
sound, and its windows are looked at only if its name is new. -/
inductive MethodsBlamed (methods : List Method) : SettingsFault → Prop where
  | repeated {before rest : List Method} {method : Method}
      (hmethods : methods = before ++ method :: rest) (hbefore : MethodsSound before)
      (h : method.name ∈ before.map Method.name) :
      MethodsBlamed methods (.repeatedMethod method.name)
  | window {before rest : List Method} {method : Method} {fault : SettingsFault}
      (hmethods : methods = before ++ method :: rest) (hbefore : MethodsSound before)
      (hname : method.name ∉ before.map Method.name) (h : WindowBlamed method fault) :
      MethodsBlamed methods fault

theorem MethodsSound.nil : MethodsSound [] := by
  constructor
  · exact List.nodup_nil
  · intro method hmethod
    exact absurd hmethod List.not_mem_nil

theorem methodsSound_iff {methods : List Method} :
    MethodsSound methods ↔ methodsFault? [] methods = none := by
  rw [methodsFault?_eq_none_iff]
  constructor
  · intro h
    exact ⟨h.names, fun _ _ => List.not_mem_nil, fun method hmethod scenario hscenario =>
      isForward_iff.mpr (h.windows method hmethod scenario hscenario)⟩
  · rintro ⟨hnames, -, hforward⟩
    exact ⟨hnames, fun method hmethod scenario hscenario =>
      isForward_iff.mp (hforward method hmethod scenario hscenario)⟩

theorem MethodsSound.concat {before : List Method} {method : Method} (h : MethodsSound before)
    (hname : method.name ∉ before.map Method.name)
    (hwindows : ∀ scenario ∈ method.scenarios, scenario.Forward) :
    MethodsSound (before ++ [method]) := by
  constructor
  · rw [List.map_append, List.map_singleton]
    exact h.names.append (List.nodup_singleton _) (List.disjoint_singleton.mpr hname)
  · intro m hm
    rcases List.mem_append.mp hm with hm | hm
    · exact h.windows m hm
    · obtain rfl := List.mem_singleton.mp hm
      exact hwindows

theorem methodsFault?_append {known : List String} {before rest : List Method}
    (h : methodsFault? known before = none) : methodsFault? known (before ++ rest) =
      methodsFault? ((before.map Method.name).reverse ++ known) rest := by
  induction before generalizing known with
  | nil => rfl
  | cons method before ih =>
    simp only [List.cons_append, methodsFault?] at h ⊢
    split at h
    · cases h
    · rename_i hnew
      obtain ⟨hwindows, hbefore⟩ := Option.or_eq_none_iff.mp h
      rw [if_neg hnew, hwindows, Option.none_or, ih hbefore]
      simp

theorem methodsFault?_of_blamed {methods : List Method} {fault : SettingsFault}
    (h : MethodsBlamed methods fault) : methodsFault? [] methods = some fault := by
  cases h with
  | @repeated before rest method hmethods hbefore h =>
    rw [hmethods, methodsFault?_append (methodsSound_iff.mp hbefore), List.append_nil, methodsFault?]
    exact if_pos (List.contains_iff_mem.mpr (List.mem_reverse.mpr h))
  | @window before rest method _ hmethods hbefore hname h =>
    rw [hmethods, methodsFault?_append (methodsSound_iff.mp hbefore), List.append_nil, methodsFault?,
      if_neg (by simpa using hname), backwardWindow?_eq_some_iff.mpr h, Option.some_or]

/-- The known names are those of the methods before, none of which is at fault. -/
theorem blamed_of_methodsFault? {before rest : List Method} {fault : SettingsFault}
    (hbefore : MethodsSound before)
    (h : methodsFault? (before.map Method.name).reverse rest = some fault) :
    MethodsBlamed (before ++ rest) fault := by
  induction rest generalizing before with
  | nil => cases h
  | cons method rest ih =>
    rw [methodsFault?] at h
    split at h
    · rename_i hknown
      obtain rfl := Option.some.inj h
      exact .repeated rfl hbefore (by simpa using hknown)
    · rename_i hknown
      have hname : method.name ∉ before.map Method.name := by simpa using hknown
      cases hwindows : backwardWindow? method with
      | some blamed =>
        rw [hwindows, Option.some_or] at h
        obtain rfl := Option.some.inj h
        exact .window rfl hbefore hname (backwardWindow?_eq_some_iff.mp hwindows)
      | none =>
        rw [hwindows, Option.none_or] at h
        have hnext := hbefore.concat hname (forward_of_backwardWindow?_eq_none hwindows)
        have hmethods := ih hnext (by simpa using h)
        rwa [List.append_assoc] at hmethods

theorem methodsFault?_eq_some_iff {methods : List Method} {fault : SettingsFault} :
    methodsFault? [] methods = some fault ↔ MethodsBlamed methods fault :=
  ⟨blamed_of_methodsFault? MethodsSound.nil, methodsFault?_of_blamed⟩

/-- The error that faulty settings are refused with. Methods are looked at only if the parameters are
sound. -/
inductive Blamed (s : Settings) : Error → Prop where
  | parameter {fault : ParameterFault Float} (h : Params.FirstBroken s.params.demands fault) :
      Blamed s (.data (.invalidParameter fault))
  | method {fault : SettingsFault} (hparams : ∀ d ∈ s.params.demands, d.holds)
      (h : MethodsBlamed s.methods fault) : Blamed s (.settings fault)

theorem validate_eq_error_iff {s : Settings} {e : Error} : s.validate = .error e ↔ s.Blamed e := by
  obtain ⟨hok, herror⟩ := Params.checks_validate s.params
  rw [validate]
  constructor
  · intro h
    split at h
    · rename_i reason hparams
      obtain rfl := Except.error.inj h
      exact .parameter ((herror reason).mp hparams)
    · rename_i hparams
      split at h
      · rename_i fault hfault
        obtain rfl := Except.error.inj h
        exact .method (hok.mp hparams) (methodsFault?_eq_some_iff.mp hfault)
      · cases h
  · intro h
    cases h with
    | parameter h => rw [(herror _).mpr h]
    | method hparams h => rw [hok.mpr hparams, methodsFault?_eq_some_iff.mpr h]

/-- Settings are valid exactly if their parameters are, no two methods have one name and all windows run
forward. Any others are refused with the one error that is to blame. -/
theorem validate_blames (s : Settings) :
    (s.validate = .ok () ↔ (∀ d ∈ s.params.demands, d.holds) ∧ (s.methods.map Method.name).Nodup ∧
      ∀ method ∈ s.methods, ∀ scenario ∈ method.scenarios, scenario.Forward) ∧
    ∀ e, s.validate = .error e ↔ s.Blamed e := by
  constructor
  · rw [validate_eq_ok_iff, (Params.checks_validate s.params).ok_iff]
    simp only [isForward_iff]
  · exact fun e => validate_eq_error_iff

/-- Two methods, of which the second has two windows that do not run forward. -/
def twoMethods (second : String) : Settings :=
  { Settings.standard ⟨⟨"data"⟩, ⟨"settings"⟩⟩ with
    methods := [
      ⟨"AES", ⟨"aes.csv"⟩, [⟨0, 1, none⟩]⟩,
      ⟨second, ⟨"second.csv"⟩, [⟨0, 1, none⟩, ⟨0 / 0, 1, none⟩, ⟨2, 1, none⟩]⟩] }

theorem validate_blames_of_two_methods :
    (twoMethods "AES").validate = .error (.settings (.repeatedMethod "AES")) ∧
      (twoMethods "DES").validate = .error (.settings (.backwardWindow "DES" 2 (0 / 0) 1)) := by
  have hparams : ∀ d ∈ (Params.standard : Params Float).demands, d.holds :=
    (Params.checks_validate _).ok_iff.mp Params.validate_standard
  have hforward : (⟨0, 1, none⟩ : Scenario).Forward := isForward_iff.mp (by decide +kernel)
  have hearlier : ∀ s ∈ ([⟨0, 1, none⟩] : List Scenario), s.Forward :=
    List.forall_mem_singleton.mpr hforward
  have hfirst : MethodsSound [⟨"AES", ⟨"aes.csv"⟩, [⟨0, 1, none⟩]⟩] :=
    MethodsSound.nil.concat List.not_mem_nil hearlier
  constructor
  · exact ((validate_blames _).2 _).mpr (.method hparams (.repeated rfl hfirst (by simp)))
  · have hbackward : ¬ (⟨0 / 0, 1, none⟩ : Scenario).Forward :=
      mt isForward_iff.mpr (by decide +kernel)
    have hwindows : WindowBlamed
        ⟨"DES", ⟨"second.csv"⟩, [⟨0, 1, none⟩, ⟨0 / 0, 1, none⟩, ⟨2, 1, none⟩]⟩
        (.backwardWindow "DES" 2 (0 / 0) 1) := .first rfl hearlier hbackward
    exact ((validate_blames _).2 _).mpr
      (.method hparams (.window rfl hfirst (by simp) hwindows))

end Settings

end EnergyProfile
