import EnergyProfile.Proofs.Files.Keeping
import EnergyProfile.Proofs.Settings.Paths
import EnergyProfile.Proofs.Settings.Written

/-!
# Settings that are saved are loaded again

What is loaded after saving are the settings themselves, seen from the directory of the file. Seen
from anywhere, settings of absolute paths are the same.
-/

namespace EnergyProfile.Settings

set_option autoImplicit false

/-- Settings as they are seen from a file at a path. -/
def seenFrom (path : Path) (s : Settings) : Settings :=
  match path.parent? with
  | some base => s.resolve base
  | none => s

theorem seenFrom_of_isAbsolute (path : Path) {s : Settings}
    (h : ∀ p ∈ s.paths, p.isAbsolute = true) : s.seenFrom path = s := by
  unfold seenFrom
  cases path.parent? with
  | none => rfl
  | some base =>
    exact mapPaths_eq_self fun p hp => Path.join_of_isAbsolute base p (h p hp)

theorem validate_seenFrom (path : Path) (s : Settings) :
    (s.seenFrom path).validate = s.validate := by
  unfold seenFrom
  cases path.parent? with
  | none => rfl
  | some base => exact validate_mapPaths s

theorem numbers_seenFrom (path : Path) (s : Settings) : (s.seenFrom path).numbers = s.numbers := by
  unfold seenFrom
  cases path.parent? with
  | none => rfl
  | some base => exact numbers_mapPaths s

/-- Valid settings whose doubles come back can be read from what they are written as. -/
theorem Writable.of_validate {s : Settings} (hvalid : s.validate = .ok ())
    (hnumbers : ∀ x ∈ s.numbers, Json.ReadsBackNumber x)
    (hcount : s.report.calibrationScenarios ≤ maxSize) : s.Writable :=
  ⟨fun x hx => ⟨isFinite_of_validate hvalid hx, hnumbers x hx⟩, hcount⟩

variable (user : UserDirectories) {s : Settings}

theorem ofText_text (path : Path) (hvalid : s.validate = .ok ()) (hwritable : s.Writable) :
    ofText user path s.toJson.text = .ok (s.seenFrom path) := by
  have hread := Json.readText_text s.sound_toJson (ofJson_toJson user hwritable)
  have hseen : (s.seenFrom path).validate = .ok () := (validate_seenFrom path s).trans hvalid
  unfold seenFrom at hseen ⊢
  simp only [ofText, hread, Except.mapError, Json.ok_bind]
  cases hparent : path.parent? <;> simp only [hparent] at hseen ⊢ <;> rw [hseen] <;> rfl

section

variable {m : Type → Type} [Monad m] [LawfulMonad m] [FileAccess m]

/-- The settings of a file from what was found in it. -/
def ofFound (path : Path) : Except FileFault String → Except Error Settings
  | .error fault => .error (.settings (.unreadable path fault))
  | .ok text => ofText user path text

theorem loadFrom_eq (path : Path) :
    (loadFrom user path : m _) = ofFound user path <$> FileAccess.readText path := by
  rw [loadFrom, map_eq_pure_bind]
  refine bind_congr fun found => ?_
  cases found <;> rfl

theorem saveTo_eq (s : Settings) (path : Path) :
    (s.saveTo path : m _) =
      (·.mapError Error.file) <$> FileAccess.writeTextWithin path s.toJson.text := by
  rw [saveTo, map_eq_pure_bind]

/-- Saves settings and loads the file they were saved to. -/
def saveAndLoad (s : Settings) (path : Path) : m (Except Error Unit × Except Error Settings) := do
  let saved ← s.saveTo path
  let loaded ← loadFrom user path
  return (saved, loaded)

/-- What is loaded after saving, unless the file could not be written. -/
theorem saveAndLoad_seenFrom [KeepsFiles m] (path : Path) (hvalid : s.validate = .ok ())
    (hwritable : s.Writable) :
    Always (fun r => r.1 = .ok () ∧ r.2 = .ok (s.seenFrom path) ∨ ∃ fault, r.1 = .error (.file fault))
      (s.saveAndLoad user path : m _) := by
  have hfiles := FileAccess.readText_writeTextWithin (m := m) path s.toJson.text
  have hsettings := hfiles.map (f := fun r => (r.1.mapError Error.file, ofFound user path r.2))
    (Q := fun r => r.1 = .ok () ∧ r.2 = .ok (s.seenFrom path) ∨ ∃ fault, r.1 = .error (.file fault))
    (by
      rintro ⟨written, found⟩ hfound
      cases written with
      | error fault => exact .inr ⟨fault, rfl⟩
      | ok =>
        obtain rfl : found = .ok s.toJson.text := hfound rfl
        exact .inl ⟨rfl, ofText_text user path hvalid hwritable⟩)
  simpa only [saveAndLoad, saveTo_eq, loadFrom_eq, bind_map_left, map_bind, map_pure] using hsettings

end

theorem loadFrom_of_read {t : FileTree} {path : Path} {text : String}
    (h : t.read path = .ok text.toUTF8) :
    (loadFrom user path : StateM FileTree _) t = (ofText user path text, t) := by
  unfold loadFrom
  rw [bind_apply_of_eq (FileTree.readText_of_read h)]
  rfl

/-- On a tree that accepts the file nothing fails, and it is accepted ever after. -/
theorem saveAndLoad_of_accepts {t : FileTree} {path : Path} (hvalid : s.validate = .ok ())
    (hwritable : s.Writable) (haccepts : t.Accepts path) :
    ∃ t' : FileTree, t'.Accepts path ∧
      (s.saveAndLoad user path : StateM FileTree _) t = ((.ok (), .ok (s.seenFrom path)), t') := by
  obtain ⟨t', hwrite, haccepts'⟩ := haccepts.write s.toJson.text.toUTF8
  have hsaved : (s.saveTo path : StateM FileTree _) t = (.ok (), t') := by
    unfold saveTo
    rw [bind_apply_of_eq (FileTree.writeTextWithin_of_accepts haccepts hwrite)]
    rfl
  have hloaded : (loadFrom user path : StateM FileTree _) t' = (.ok (s.seenFrom path), t') := by
    rw [loadFrom_of_read user (FileTree.read_write hwrite), ofText_text user path hvalid hwritable]
  refine ⟨t', haccepts', ?_⟩
  unfold saveAndLoad
  rw [bind_apply_of_eq hsaved, bind_apply_of_eq hloaded]
  rfl

/-- Valid settings of absolute paths are loaded as they were saved, to whatever file, if their
doubles come back. In a file system that keeps files only a fault of its own stands against it, and
a tree that accepts the file has none. -/
theorem loadFrom_saveTo (path : Path) (hvalid : s.validate = .ok ())
    (habsolute : ∀ p ∈ s.paths, p.isAbsolute = true)
    (hnumbers : ∀ x ∈ s.numbers, Json.ReadsBackNumber x)
    (hcount : s.report.calibrationScenarios ≤ maxSize) :
    (∀ {m : Type → Type} [Monad m] [LawfulMonad m] [FileAccess m] [KeepsFiles m],
      Always (fun r => r.1 = .ok () ∧ r.2 = .ok s ∨ ∃ fault, r.1 = .error (.file fault))
        (s.saveAndLoad user path : m _)) ∧
    ∀ t : FileTree, t.Accepts path →
      ∃ t', (s.saveAndLoad user path : StateM FileTree _) t = ((.ok (), .ok s), t') := by
  have hwritable := Writable.of_validate hvalid hnumbers hcount
  have hseen := seenFrom_of_isAbsolute path habsolute
  constructor
  · intro m _ _ _ _
    have hsaved := saveAndLoad_seenFrom (m := m) user path hvalid hwritable
    rwa [hseen] at hsaved
  · intro t haccepts
    obtain ⟨t', -, hsaved⟩ := saveAndLoad_of_accepts user hvalid hwritable haccepts
    rw [hseen] at hsaved
    exact ⟨t', hsaved⟩

/-- Settings with windows of two recordings, all of whose paths are absolute. -/
def ofTwoRecordings : Settings where
  params := .standard
  columns := .standard
  methods := [
    { name := "NONE"
      recording := ⟨"/data/none.csv"⟩
      scenarios := [⟨14, 114, none⟩, ⟨179, 279, some ⟨"/data/none12.csv"⟩⟩] }]
  report := { ReportStyle.standard ⟨⟨"/data"⟩, ⟨"/conf"⟩⟩ with calibrationScenarios := 1 }

theorem loadFrom_saveTo_ofTwoRecordings :
    ∃ t', (ofTwoRecordings.saveAndLoad ⟨⟨"/data"⟩, ⟨"/conf"⟩⟩ ⟨"/conf/config.json"⟩ :
        StateM FileTree _) ⟨[(["conf"], .directory)], []⟩ =
      ((.ok (), .ok ofTwoRecordings), t') := by
  have hvalid : ofTwoRecordings.validate = .ok () :=
    validate_eq_ok_iff.mpr ⟨Params.validate_standard, by decide, by decide +kernel⟩
  refine (loadFrom_saveTo ⟨⟨"/data"⟩, ⟨"/conf"⟩⟩ ⟨"/conf/config.json"⟩ hvalid (by decide +kernel)
    (by decide +kernel) (by decide +kernel)).2 _ ⟨?_, by decide +kernel, ["conf", "config.json"],
      by rfl, by simp [FileTree.lookup, List.lookup]⟩
  intro above habove
  obtain rfl : (⟨"/conf"⟩ : Path) = above := Option.some.inj (habove ▸ by decide +kernel)
  exact .inr (by decide +kernel)

end EnergyProfile.Settings
