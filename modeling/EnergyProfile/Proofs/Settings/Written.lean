import EnergyProfile.Proofs.Json.Reading
import EnergyProfile.Proofs.Settings.Validity
import EnergyProfile.SettingsFile

/-!
# Settings are read back from what they are written as

Reading undoes writing for each part of the settings: every field is written under the name it is
read by, and an override that is left out is read as absent.
-/

namespace EnergyProfile

set_option autoImplicit false

open Json

/-- A double that comes back from a settings file. -/
def Kept (x : Float) : Prop := x.isFinite = true ∧ ReadsBackNumber x

theorem Kept.toFloat_ofFloat {x : Float} (h : Kept x) : Json.toFloat (.ofFloat x) = .ok x :=
  Json.toFloat_ofFloat h.1 h.2

theorem Path.ofJson_toJson (p : Path) : Path.ofJson p.toJson = .ok p := rfl

theorem Params.ofJson_toJson {p : Params Float} (h : ∀ x ∈ p.numbers, Kept x) :
    Params.ofJson p.toJson = .ok p := by
  simp only [Params.numbers, List.forall_mem_cons] at h
  obtain ⟨hrate, htarget, hsmoothing, hthreshold, hgap, hearly, _⟩ := h
  rw [Params.ofJson, Params.toJson, fields_record]
  case hnodup => simp
  case hfitting =>
    simp only [List.forall_mem_cons]
    refine ⟨⟨_, rfl, check_field hrate.toFloat_ofFloat⟩,
      ⟨_, rfl, check_field htarget.toFloat_ofFloat⟩,
      ⟨_, rfl, check_field hsmoothing.toFloat_ofFloat⟩,
      ⟨_, rfl, check_field hthreshold.toFloat_ofFloat⟩,
      ⟨_, rfl, check_field hgap.toFloat_ofFloat⟩,
      ⟨_, rfl, check_field hearly.toFloat_ofFloat⟩, by simp⟩
  simp [ok_bind, Fields.required, List.lookup, hrate.toFloat_ofFloat, htarget.toFloat_ofFloat,
    hsmoothing.toFloat_ofFloat, hthreshold.toFloat_ofFloat, hgap.toFloat_ofFloat,
    hearly.toFloat_ofFloat, pure, Except.pure]

theorem Columns.ofJson_toJson (c : Columns) : Columns.ofJson c.toJson = .ok c := by
  rw [Columns.ofJson, Columns.toJson, fields_record]
  case hnodup => simp
  case hfitting =>
    simp only [List.forall_mem_cons]
    exact ⟨⟨_, rfl, rfl⟩, ⟨_, rfl, rfl⟩, by simp⟩
  simp [ok_bind, Fields.required, List.lookup, Json.toText, pure, Except.pure]

theorem Path.toOption_toJson (p : Path) : Json.toOption Path.ofJson p.toJson = .ok (some p) := rfl

theorem Scenario.ofJson_toJson {s : Scenario} (hstart : Kept s.start) (hstop : Kept s.stop) :
    Scenario.ofJson s.toJson = .ok s := by
  obtain ⟨start, stop, recording⟩ := s
  rw [Scenario.ofJson, Scenario.toJson, fields_record]
  case hnodup => cases recording <;> simp
  case hfitting =>
    have hbounds : (field "start_s" Json.toFloat).check (.ofFloat start) = .ok () ∧
        (field "end_s" Json.toFloat).check (.ofFloat stop) = .ok () :=
      ⟨check_field hstart.toFloat_ofFloat, check_field hstop.toFloat_ofFloat⟩
    cases recording with
    | none =>
      simp only [Option.map_none, Option.toList_none, List.append_nil, List.forall_mem_cons]
      exact ⟨⟨_, rfl, hbounds.1⟩, ⟨_, rfl, hbounds.2⟩, by simp⟩
    | some p =>
      simp only [Option.map_some, Option.toList_some, List.cons_append, List.nil_append,
        List.forall_mem_cons]
      exact ⟨⟨_, rfl, hbounds.1⟩, ⟨_, rfl, hbounds.2⟩, ⟨_, rfl, rfl⟩, by simp⟩
  cases recording <;>
    simp [ok_bind, Fields.required, Fields.optional, List.lookup, hstart.toFloat_ofFloat,
      hstop.toFloat_ofFloat, Path.toOption_toJson, pure, Except.pure]

theorem Method.ofJson_toJson {method : Method}
    (h : ∀ s ∈ method.scenarios, Kept s.start ∧ Kept s.stop) :
    Method.ofJson method.toJson = .ok method := by
  have hscenarios : Json.toList Scenario.ofJson (.list (method.scenarios.map Scenario.toJson)) =
      .ok method.scenarios :=
    toList_list fun s hs => Scenario.ofJson_toJson (h s hs).1 (h s hs).2
  rw [Method.ofJson, Method.toJson, fields_record]
  case hnodup => simp
  case hfitting =>
    simp only [List.forall_mem_cons]
    exact ⟨⟨_, rfl, rfl⟩, ⟨_, rfl, rfl⟩, ⟨_, rfl, check_field hscenarios⟩, by simp⟩
  simp [ok_bind, Fields.required, List.lookup, Json.toText, Path.ofJson_toJson, hscenarios, pure,
    Except.pure]

theorem ReportStyle.ofJson_toJson (standard : ReportStyle) {r : ReportStyle}
    (h : r.calibrationScenarios ≤ maxSize) : ReportStyle.ofJson standard r.toJson = .ok r := by
  have hcolumns : Json.toList Json.toText (.list (r.excludedColumns.map Json.string)) =
      .ok r.excludedColumns :=
    toList_list fun _ _ => rfl
  rw [ReportStyle.ofJson, ReportStyle.toJson, fields_record]
  case hnodup => simp
  case hfitting =>
    simp only [List.forall_mem_cons]
    exact ⟨⟨_, rfl, check_field (toCount_ofNat h)⟩, ⟨_, rfl, check_field hcolumns⟩,
      ⟨_, rfl, rfl⟩, ⟨_, rfl, rfl⟩, by simp⟩
  simp [ok_bind, Fields.optional, List.lookup, Json.toText, Path.ofJson_toJson, hcolumns,
    toCount_ofNat h, pure, Except.pure]

theorem Params.sound_toJson (p : Params Float) : Sound p.toJson := by
  refine .record fun member hmember => ?_
  simp only [List.mem_cons, List.not_mem_nil, or_false] at hmember
  obtain rfl | rfl | rfl | rfl | rfl | rfl := hmember <;> exact sound_ofFloat _

theorem Columns.sound_toJson (c : Columns) : Sound c.toJson := by
  refine .record fun member hmember => ?_
  simp only [List.mem_cons, List.not_mem_nil, or_false] at hmember
  obtain rfl | rfl := hmember <;> exact .string _

theorem Scenario.sound_toJson (s : Scenario) : Sound s.toJson := by
  refine .record fun member hmember => ?_
  rw [List.mem_append] at hmember
  cases hmember with
  | inl hbounds =>
    simp only [List.mem_cons, List.not_mem_nil, or_false] at hbounds
    obtain rfl | rfl := hbounds <;> exact sound_ofFloat _
  | inr hrecording =>
    obtain ⟨p, _, rfl⟩ := Option.map_eq_some_iff.mp (Option.mem_toList.mp hrecording)
    exact .string _

theorem Method.sound_toJson (method : Method) : Sound method.toJson := by
  refine .record fun member hmember => ?_
  simp only [List.mem_cons, List.not_mem_nil, or_false] at hmember
  obtain rfl | rfl | rfl := hmember
  · exact .string _
  · exact .string _
  · exact sound_list_map Scenario.sound_toJson _

theorem ReportStyle.sound_toJson (r : ReportStyle) : Sound r.toJson := by
  refine .record fun member hmember => ?_
  simp only [List.mem_cons, List.not_mem_nil, or_false] at hmember
  obtain rfl | rfl | rfl | rfl := hmember
  · exact sound_ofNat _
  · exact sound_list_map (fun s => .string s) _
  · exact .string _
  · exact .string _

namespace Settings

theorem sound_toJson (s : Settings) : Sound s.toJson := by
  refine .record fun member hmember => ?_
  simp only [List.mem_cons, List.not_mem_nil, or_false] at hmember
  obtain rfl | rfl | rfl | rfl := hmember
  · exact s.params.sound_toJson
  · exact s.columns.sound_toJson
  · exact sound_list_map Method.sound_toJson _
  · exact s.report.sound_toJson

/-- Settings whose numbers a file can hold. A count has to fit a word. -/
structure Writable (s : Settings) : Prop where
  numbers : ∀ x ∈ s.numbers, Kept x
  calibration : s.report.calibrationScenarios ≤ maxSize

theorem ofJson_toJson (user : UserDirectories) {s : Settings} (h : s.Writable) :
    ofJson user s.toJson = .ok s := by
  have hparams : Params.ofJson s.params.toJson = .ok s.params :=
    Params.ofJson_toJson fun x hx => h.numbers x (List.mem_append_left _ hx)
  have hmethods : Json.toList Method.ofJson (.list (s.methods.map Method.toJson)) =
      .ok s.methods := by
    refine toList_list fun method hmethod => Method.ofJson_toJson fun scenario hscenario => ?_
    have hmem (x : Float) (hx : x ∈ [scenario.start, scenario.stop]) : Kept x :=
      h.numbers x (List.mem_append_right _ (List.mem_flatMap.mpr
        ⟨method, hmethod, List.mem_flatMap.mpr ⟨scenario, hscenario, hx⟩⟩))
    exact ⟨hmem _ (by simp), hmem _ (by simp)⟩
  have hreport := ReportStyle.ofJson_toJson (.standard user) h.calibration
  rw [ofJson, toJson, fields_record]
  case hnodup => simp
  case hfitting =>
    simp only [List.forall_mem_cons]
    exact ⟨⟨_, rfl, check_field hparams⟩, ⟨_, rfl, check_field (Columns.ofJson_toJson _)⟩,
      ⟨_, rfl, check_field hmethods⟩, ⟨_, rfl, check_field hreport⟩, by simp⟩
  simp [ok_bind, Fields.optional, List.lookup, hparams, Columns.ofJson_toJson, hmethods, hreport,
    pure, Except.pure]

end Settings

end EnergyProfile
