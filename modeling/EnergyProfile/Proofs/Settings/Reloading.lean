import EnergyProfile.Proofs.Settings.Saving

/-!
# Settings that are loaded and saved over and over

Each round of saving and loading sees the paths from the directory of the file once more. That adds
nothing if the directory is where relative paths begin, or if there are no relative paths. Otherwise
a relative path leads one directory further with each round.
-/

namespace EnergyProfile.Settings

set_option autoImplicit false

/-- Settings that differ at most in the spelling of their paths. -/
structure Same (s s' : Settings) : Prop where
  rest : s.mapPaths (fun _ => default) = s'.mapPaths fun _ => default
  paths : List.Forall₂ (fun p p' => p.same p' = true) s.paths s'.paths

variable {f : Path → Path} {s : Settings}

theorem mapPaths_same_iff : (s.mapPaths f).Same s ↔ ∀ p ∈ s.paths, (f p).same p = true := by
  constructor
  · intro h
    have hpaths := h.paths
    rwa [paths_mapPaths, List.forall₂_map_left_iff, List.forall₂_same] at hpaths
  · intro h
    refine ⟨by simp [Function.comp_def], ?_⟩
    rwa [paths_mapPaths, List.forall₂_map_left_iff, List.forall₂_same]

theorem iterate_seenFrom {path base : Path} (hparent : path.parent? = some base) (n : Nat)
    (s : Settings) : (seenFrom path)^[n] s = s.mapPaths base.join^[n] := by
  induction n generalizing s with
  | zero => simp
  | succ n ih =>
    have hseen : s.seenFrom path = s.mapPaths base.join := by
      simp only [seenFrom, hparent, resolve_eq_mapPaths]
    rw [Function.iterate_succ_apply, hseen, ih, mapPaths_mapPaths, Function.iterate_succ]

theorem iterate_seenFrom_of_none {path : Path} (hparent : path.parent? = none) (n : Nat)
    (s : Settings) : (seenFrom path)^[n] s = s := by
  have hseen : seenFrom path = id := by
    funext s
    simp only [seenFrom, hparent, id]
  rw [hseen, Function.iterate_id, id]

/-- Settings as they were loaded from a file, seen from there so many times more, have the same
paths exactly if there is nothing more to name on the way or no path that it would be put before. -/
theorem iterate_seenFrom_same_iff {path : Path} (written : Settings) :
    (∀ n, Same ((seenFrom path)^[n] (written.seenFrom path)) (written.seenFrom path)) ↔
      (∀ base, path.parent? = some base → base.named = []) ∨
        ∀ p ∈ (written.seenFrom path).paths, p.isAbsolute = true := by
  cases hparent : path.parent? with
  | none =>
    have hsame (s : Settings) : s.Same s := ⟨rfl, List.forall₂_same.mpr fun p _ => p.same_self⟩
    simp [iterate_seenFrom_of_none hparent, hsame]
  | some base =>
    have hseen : written.seenFrom path = written.mapPaths base.join := by
      simp only [seenFrom, hparent, resolve_eq_mapPaths]
    simp only [iterate_seenFrom hparent, mapPaths_same_iff, Option.some.injEq, forall_eq']
    constructor
    · intro h
      by_contra hnot
      push Not at hnot
      obtain ⟨hnamed, p, hp, hrelative⟩ := hnot
      have hfirst := h 1 p hp
      rw [Function.iterate_one, Path.not_same_join (Bool.eq_false_iff.mpr hrelative) hnamed] at hfirst
      cases hfirst
    · rintro (hnamed | habsolute) n p hp
      · rw [hseen, paths_mapPaths] at hp
        obtain ⟨q, -, rfl⟩ := List.mem_map.mp hp
        induction n with
        | zero => exact Path.same_self _
        | succ n ih =>
          rw [Function.iterate_succ_apply']
          refine Path.same_trans ?_ ih
          rw [← Function.iterate_succ_apply, Function.iterate_succ_apply']
          exact Path.same_join_join hnamed _
      · rw [Function.iterate_fixed (Path.join_of_isAbsolute base p (habsolute p hp))]
        exact Path.same_self p

theorem isAbsolute_of_seenFrom {path : Path} (hpath : path.isAbsolute = true)
    (hparent : path.parent?.isSome) (s : Settings) {p : Path} (hp : p ∈ (s.seenFrom path).paths) :
    p.isAbsolute = true := by
  obtain ⟨base, hbase⟩ := Option.isSome_iff_exists.mp hparent
  simp only [seenFrom, hbase, resolve_eq_mapPaths, paths_mapPaths] at hp
  obtain ⟨q, -, rfl⟩ := List.mem_map.mp hp
  exact Path.isAbsolute_join_of_isAbsolute (Path.isAbsolute_parent hbase hpath) q

theorem iterate_seenFrom_of_isAbsolute {path : Path} (hpath : path.isAbsolute = true)
    (written : Settings) (n : Nat) :
    (seenFrom path)^[n] (written.seenFrom path) = written.seenFrom path := by
  cases hparent : path.parent? with
  | none => exact iterate_seenFrom_of_none hparent n _
  | some base =>
    refine Function.iterate_fixed (seenFrom_of_isAbsolute path fun p hp => ?_) n
    exact isAbsolute_of_seenFrom hpath (by simp [hparent]) written hp

theorem calibration_le_of_ofJson (user : UserDirectories) {json : Json} {s : Settings}
    (h : ofJson user json = .ok s) : s.report.calibrationScenarios ≤ maxSize := by
  have hstandard : (ReportStyle.standard user).calibrationScenarios ≤ maxSize :=
    show 4 ≤ maxSize by decide
  have hstyle {value : Json} {r : ReportStyle} (h : ReportStyle.ofJson (.standard user) value = .ok r) :
      r.calibrationScenarios ≤ maxSize := by
    simp only [ReportStyle.ofJson, bind_eq_ok_iff] at h
    obtain ⟨f, -, count, hcount, _, -, _, -, _, -, hr⟩ := h
    obtain rfl := Except.ok.inj hr
    unfold Json.Fields.optional at hcount
    split at hcount
    · exact Json.toCount_le hcount
    · obtain rfl := Except.ok.inj hcount
      exact hstandard
  simp only [ofJson, bind_eq_ok_iff] at h
  obtain ⟨f, -, _, -, _, -, _, -, report, hreport, hs⟩ := h
  obtain rfl := Except.ok.inj hs
  unfold Json.Fields.optional at hreport
  split at hreport
  · exact hstyle hreport
  · obtain rfl := Except.ok.inj hreport
    exact hstandard

/-- What is loaded is what is written, seen from the file, and it is valid. -/
theorem exists_of_ofText {user : UserDirectories} {path : Path} {text : String} {c : Settings}
    (h : ofText user path text = .ok c) :
    ∃ written : Settings, c = written.seenFrom path ∧ c.validate = .ok () ∧
      c.report.calibrationScenarios ≤ maxSize := by
  simp only [ofText, bind_eq_ok_iff] at h
  obtain ⟨written, hwritten, _, hvalid, hc⟩ := h
  obtain rfl := Except.ok.inj hc
  have hread : Json.readText (ofJson user) text = .ok written := by
    cases hread : Json.readText (ofJson user) text with
    | error fault => rw [hread] at hwritten; cases hwritten
    | ok s =>
      rw [hread] at hwritten
      rw [Except.ok.inj hwritten]
  obtain ⟨read, hjson, hend⟩ := bind_eq_ok_iff.mp hread
  obtain rfl : read = written := by
    split_ifs at hend
    exact Except.ok.inj hend
  refine ⟨read, rfl, hvalid, ?_⟩
  have hcount := calibration_le_of_ofJson user hjson
  split <;> exact hcount

theorem Writable.seenFrom {s : Settings} (h : s.Writable) (path : Path) :
    (s.seenFrom path).Writable := by
  refine ⟨fun x hx => h.numbers x (numbers_seenFrom path s ▸ hx), ?_⟩
  unfold Settings.seenFrom
  cases path.parent? <;> exact h.calibration

section

variable (user : UserDirectories) {m : Type → Type} [Monad m] [FileAccess m]

/-- Saves settings and loads them again, so many times, up to the first fault. -/
def rounds (path : Path) : Nat → Settings → m (Except Error Settings)
  | 0, s => return .ok s
  | n + 1, s => do
    match ← s.saveAndLoad user path with
    | (.ok (), .ok s) => rounds path n s
    | (.error e, _) => return .error e
    | (_, .error e) => return .error e

theorem rounds_seenFrom [LawfulMonad m] [KeepsFiles m] {path : Path} (n : Nat) {s : Settings}
    (hvalid : s.validate = .ok ()) (hwritable : s.Writable) :
    Always (fun r => r = .ok ((seenFrom path)^[n] s) ∨ ∃ fault, r = .error (.file fault))
      (rounds user path n s : m _) := by
  induction n generalizing s with
  | zero => exact Always.pure (.inl rfl)
  | succ n ih =>
    refine (saveAndLoad_seenFrom user path hvalid hwritable).bind ?_
    rintro ⟨saved, loaded⟩ (⟨rfl, rfl⟩ | ⟨fault, rfl⟩)
    · exact ih ((validate_seenFrom path s).trans hvalid) (hwritable.seenFrom path)
    · exact Always.pure (.inr ⟨fault, rfl⟩)

end

theorem rounds_of_accepts (user : UserDirectories) {path : Path} (n : Nat) {s : Settings}
    {t : FileTree} (hvalid : s.validate = .ok ()) (hwritable : s.Writable)
    (haccepts : t.Accepts path) :
    ∃ t', (rounds user path n s : StateM FileTree _) t = (.ok ((seenFrom path)^[n] s), t') := by
  induction n generalizing s t with
  | zero => exact ⟨t, rfl⟩
  | succ n ih =>
    obtain ⟨t', haccepts', hsaved⟩ := saveAndLoad_of_accepts user hvalid hwritable haccepts
    obtain ⟨t'', hrounds⟩ :=
      ih ((validate_seenFrom path s).trans hvalid) (hwritable.seenFrom path) haccepts'
    refine ⟨t'', ?_⟩
    rw [rounds, bind_apply_of_eq hsaved]
    exact hrounds

/-- The settings that are loaded from a file, saved there and loaded again, and so on, are the first
ones seen from the file once more in each round. They stay the same, up to the spelling of their
paths, exactly if the file is in a directory without a name or all paths are absolute. They do if
the file is at an absolute path, and then even their spelling stays. -/
theorem rounds_of_ofText (user : UserDirectories) {path : Path} {text : String} {c : Settings}
    (hload : ofText user path text = .ok c) (hnumbers : ∀ x ∈ c.numbers, Json.ReadsBackNumber x) :
    (∀ {m : Type → Type} [Monad m] [LawfulMonad m] [FileAccess m] [KeepsFiles m] (n : Nat),
      Always (fun r => r = .ok ((seenFrom path)^[n] c) ∨ ∃ fault, r = .error (.file fault))
        (rounds user path n c : m _)) ∧
    (∀ (t : FileTree) (n : Nat), t.Accepts path →
      ∃ t', (rounds user path n c : StateM FileTree _) t = (.ok ((seenFrom path)^[n] c), t')) ∧
    ((∀ n, Same ((seenFrom path)^[n] c) c) ↔
      (∀ base, path.parent? = some base → base.named = []) ∨
        ∀ p ∈ c.paths, p.isAbsolute = true) ∧
    (path.isAbsolute = true → ∀ n, (seenFrom path)^[n] c = c) := by
  obtain ⟨written, rfl, hvalid, hcount⟩ := exists_of_ofText hload
  have hwritable := Writable.of_validate hvalid hnumbers hcount
  refine ⟨fun n => rounds_seenFrom user n hvalid hwritable,
    fun t n haccepts => rounds_of_accepts user n hvalid hwritable haccepts,
    iterate_seenFrom_same_iff written, ?_⟩
  exact fun hpath n => iterate_seenFrom_of_isAbsolute hpath written n

/-- Settings for a recording and reports that are next to their file. -/
def ofNeighbours : Settings where
  params := .standard
  columns := .standard
  methods := [⟨"NONE", ⟨"a.csv"⟩, [⟨0, 1, none⟩]⟩]
  report := { ReportStyle.standard ⟨⟨"/data"⟩, ⟨"/conf"⟩⟩ with outputDirectory := ⟨"out"⟩ }

theorem validate_ofNeighbours : ofNeighbours.validate = .ok () :=
  validate_eq_ok_iff.mpr ⟨Params.validate_standard, by decide, by decide +kernel⟩

theorem writable_ofNeighbours : ofNeighbours.Writable :=
  .of_validate validate_ofNeighbours (by decide +kernel) (by decide +kernel)

/-- In the directory where relative paths begin, neighbours stay neighbours. -/
theorem rounds_of_ofText_ofNeighbours :
    ofText ⟨⟨"/data"⟩, ⟨"/conf"⟩⟩ ⟨"a.json"⟩ ofNeighbours.toJson.text =
        .ok (ofNeighbours.seenFrom ⟨"a.json"⟩) ∧
      ∀ n, Same ((seenFrom ⟨"a.json"⟩)^[n] (ofNeighbours.seenFrom ⟨"a.json"⟩))
        (ofNeighbours.seenFrom ⟨"a.json"⟩) := by
  have hload := ofText_text ⟨⟨"/data"⟩, ⟨"/conf"⟩⟩ ⟨"a.json"⟩ validate_ofNeighbours
    writable_ofNeighbours
  refine ⟨hload, (rounds_of_ofText _ hload (by decide +kernel)).2.2.1.mpr (.inl fun base hbase => ?_)⟩
  obtain rfl : (⟨""⟩ : Path) = base := Option.some.inj (hbase ▸ by decide +kernel)
  decide +kernel

/-- A tree with these settings in a file in a directory. -/
def treeOfNeighbours : FileTree :=
  ⟨[(["conf", "a.json"], .file ofNeighbours.toJson.text.toUTF8), (["conf"], .directory)], []⟩

/-- In a directory below, they lead elsewhere after the first round. -/
theorem not_same_of_relative_directory :
    ∃ c c' t',
      (loadFrom ⟨⟨"/data"⟩, ⟨"/conf"⟩⟩ ⟨"conf/a.json"⟩ : StateM FileTree _) treeOfNeighbours =
        (.ok c, treeOfNeighbours) ∧
      (c.saveAndLoad ⟨⟨"/data"⟩, ⟨"/conf"⟩⟩ ⟨"conf/a.json"⟩ : StateM FileTree _)
          treeOfNeighbours = ((.ok (), .ok c'), t') ∧
      ¬ c'.Same c := by
  have hread : treeOfNeighbours.read ⟨"conf/a.json"⟩ = .ok ofNeighbours.toJson.text.toUTF8 :=
    FileTree.read_eq_ok_iff.mpr ⟨["conf", "a.json"], by rfl, by rfl⟩
  have haccepts : treeOfNeighbours.Accepts ⟨"conf/a.json"⟩ := by
    refine ⟨fun above habove => ?_, by decide +kernel, ["conf", "a.json"], by rfl,
      by simp [treeOfNeighbours, FileTree.lookup]⟩
    obtain rfl : (⟨"conf"⟩ : Path) = above := Option.some.inj (habove ▸ by decide +kernel)
    exact .inr (FileTree.kindOf?_eq_directory_iff.mpr ⟨["conf"], by rfl, by rfl⟩)
  obtain ⟨t', -, hsaved⟩ := saveAndLoad_of_accepts ⟨⟨"/data"⟩, ⟨"/conf"⟩⟩
    ((validate_seenFrom ⟨"conf/a.json"⟩ ofNeighbours).trans validate_ofNeighbours)
    (writable_ofNeighbours.seenFrom ⟨"conf/a.json"⟩) haccepts
  refine ⟨_, _, t', ?_, hsaved, fun hsame => ?_⟩
  · rw [loadFrom_of_read _ hread, ofText_text _ _ validate_ofNeighbours writable_ofNeighbours]
  · exact absurd (List.forall₂_cons.mp hsame.paths).1 (by decide +kernel)

end EnergyProfile.Settings
