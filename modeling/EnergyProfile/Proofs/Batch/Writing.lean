import EnergyProfile.Proofs.Batch.FileNames
import EnergyProfile.Proofs.Batch.Selection
import EnergyProfile.Proofs.Files.Writing
import EnergyProfile.Proofs.Settings.Validity
import Mathlib.Data.List.Pairwise

/-!
# Tables that are written and those that are left

Tables are written one after another, each to the place that its path leads to. A table is still
there at the end if no other one was written to its place, which is so for methods whose names name
different files and do not lead up again.
-/

namespace EnergyProfile.Batch

set_option autoImplicit false

variable {earlyWindow : Float} {directory : Path} {names : List String}

/-- Names of methods that lead to files of their own, none of which leads up again on the way. -/
structure Apart (earlyWindow : Float) (names : List String) : Prop where
  parts : names.Pairwise fun name name' => fileParts earlyWindow name ≠ fileParts earlyWindow name'
  down : ∀ name ∈ names, ".." ∉ fileParts earlyWindow name

theorem apart_of_plain (hnodup : names.Nodup) (hplain : ∀ name ∈ names, '/' ∉ name.toList) :
    Apart earlyWindow names := by
  constructor
  · refine List.Pairwise.imp_of_mem (fun hname hname' hne heq => hne ?_) hnodup
    rw [fileParts_of_plain _ (hplain _ hname), fileParts_of_plain _ (hplain _ hname')] at heq
    exact reportFileName_injective _ (List.cons.inj heq).1
  · intro name hname hup
    obtain ⟨first, rest, hparts⟩ := exists_fileParts earlyWindow name
    rw [fileParts_of_plain _ (hplain name hname)] at hup hparts
    rw [← List.mem_singleton.mp hup] at hparts
    have hfirst := congrArg String.toList (List.cons.inj hparts).1
    simp at hfirst

theorem placeOf_join_of_down (t : FileTree) {path : Path} (hpath : path.isAbsolute = false)
    (hdown : ".." ∉ path.named) :
    t.placeOf (directory.join path) = t.placeOf directory ++ path.named := by
  rw [FileTree.placeOf_join hpath]
  refine FileTree.walk_of_plain fun c hc => ?_
  have hkept := List.of_mem_filter hc
  simp only [ne_eq, decide_eq_true_eq] at hkept
  exact ⟨hkept.1, hkept.2, fun h => hdown (h ▸ hc)⟩

theorem placeOf_methodPath (t : FileTree) {name : String}
    (hdown : ".." ∉ fileParts earlyWindow name) :
    t.placeOf (methodPath earlyWindow directory name) =
      t.placeOf directory ++ fileParts earlyWindow name :=
  placeOf_join_of_down t (isAbsolute_reportFileName _ _) hdown

theorem placeOf_comparisonPath (t : FileTree) (metric : Metric) :
    t.placeOf (comparisonPath directory metric) =
      t.placeOf directory ++ [comparisonFileName metric] := by
  have hdown : ".." ∉ Path.named ⟨comparisonFileName metric⟩ := by cases metric <;> decide +kernel
  rw [comparisonPath, placeOf_join_of_down t (isAbsolute_comparisonFileName _) hdown,
    named_comparisonFileName]

theorem Apart.places (h : Apart earlyWindow names) (t : FileTree) :
    (reportPaths earlyWindow directory names).Pairwise fun p q => t.placeOf p ≠ t.placeOf q := by
  rw [pairwise_reportPaths_iff]
  · refine List.Pairwise.imp_of_mem (fun hname hname' hne => ?_) h.parts
    rwa [placeOf_methodPath t (h.down _ hname), placeOf_methodPath t (h.down _ hname'), ne_eq,
      List.append_cancel_left_eq]
  · intro name hname metric
    rw [placeOf_methodPath t (h.down name hname), placeOf_comparisonPath, ne_eq,
      List.append_cancel_left_eq]
    exact fileParts_ne_comparison _ _ _
  · intro metric metric' hne
    rw [placeOf_comparisonPath, placeOf_comparisonPath, ne_eq, List.append_cancel_left_eq]
    exact fun h => hne (comparisonFileName_injective (List.cons.inj h).1)

def bytesOf (table : Table) : ByteArray := table.toCsv.toUTF8

/-- What became of a tree when some tables were written: their paths lead to their places, and what
was at a place or was written to it is there, if nothing different was written there. -/
structure Filed (t t' : FileTree) (done : List (Path × Table)) : Prop where
  extends_tree : t.Extends t'
  resolve : ∀ file ∈ done, t'.resolve file.1 = .ok (t.placeOf file.1)
  before : ∀ place node,
    (∀ file ∈ done, t.placeOf file.1 = place → node = .file (bytesOf file.2)) →
      t.lookup place = some node → t'.lookup place = some node
  holds : ∀ file ∈ done,
    (∀ file' ∈ done, t.placeOf file'.1 = t.placeOf file.1 → bytesOf file'.2 = bytesOf file.2) →
      t'.lookup (t.placeOf file.1) = some (.file (bytesOf file.2))

section

variable {t t' t'' : FileTree} {done : List (Path × Table)}

theorem filed_nil (h : t.Keeps t') : Filed t t' [] where
  extends_tree := h.extends
  resolve := by simp
  before place node _ := h.lookup place node
  holds := by simp

theorem Filed.of_keeps (h : t.Keeps t') (h' : Filed t' t'' done) : Filed t t'' done := by
  have hplace (path : Path) := h.extends.placeOf path
  have hresolve := h'.resolve
  have hbefore := h'.before
  have hholds := h'.holds
  simp only [hplace] at hresolve hbefore hholds
  exact ⟨h.extends.trans h'.extends_tree, hresolve,
    fun place node hdone hlookup => hbefore place node hdone (h.lookup place node hlookup), hholds⟩

/-- One more table in front. What follows may replace it only by the same. -/
theorem Filed.cons {path : Path} {table : Table} (h : t.Written t' path (bytesOf table))
    (h' : Filed t' t'' done) : Filed t t'' ((path, table) :: done) := by
  have hplace (path : Path) := h.extends_tree.placeOf path
  have hresolve := h'.resolve
  have hbefore := h'.before
  have hholds := h'.holds
  simp only [hplace] at hresolve hbefore hholds
  constructor
  case extends_tree => exact h.extends_tree.trans h'.extends_tree
  case resolve =>
    rw [List.forall_mem_cons]
    exact ⟨h'.extends_tree.resolve h.resolve, hresolve⟩
  case before =>
    intro place node hsame hlookup
    rw [List.forall_mem_cons] at hsame
    refine hbefore place node hsame.2 ?_
    by_cases hhere : t.placeOf path = place
    · rw [hsame.1 hhere, ← hhere]
      exact h.lookup
    · exact h.others place node (Ne.symm hhere) hlookup
  case holds =>
    rw [List.forall_mem_cons]
    constructor
    · intro hsame
      rw [List.forall_mem_cons] at hsame
      refine hbefore _ _ (fun file hfile hhere => ?_) h.lookup
      rw [hsame.2 file hfile hhere]
    · intro file hfile hsame
      rw [List.forall_mem_cons] at hsame
      exact hholds file hfile hsame.2

/-- All tables are left exactly if no two different ones were written to one place. -/
theorem Filed.read_iff (h : Filed t t' done) :
    (∀ file ∈ done, t'.read file.1 = .ok (bytesOf file.2)) ↔
      done.Pairwise fun file file' =>
        t.placeOf file.1 = t.placeOf file'.1 → bytesOf file.2 = bytesOf file'.2 := by
  constructor
  · intro hread
    refine List.pairwise_of_forall_mem_list fun file hfile file' hfile' hhere => ?_
    obtain ⟨place, hplace, hlookup⟩ := FileTree.read_eq_ok_iff.mp (hread file hfile)
    obtain ⟨place', hplace', hlookup'⟩ := FileTree.read_eq_ok_iff.mp (hread file' hfile')
    obtain rfl : t.placeOf file.1 = place := Except.ok.inj ((h.resolve file hfile).symm.trans hplace)
    obtain rfl : t.placeOf file'.1 = place' :=
      Except.ok.inj ((h.resolve file' hfile').symm.trans hplace')
    rw [hhere, hlookup'] at hlookup
    exact (Node.file.inj (Option.some.inj hlookup)).symm
  · intro hpairwise file hfile
    have : Std.Symm fun file file' : Path × Table =>
        t.placeOf file.1 = t.placeOf file'.1 → bytesOf file.2 = bytesOf file'.2 :=
      ⟨fun _ _ heq hhere => (heq hhere.symm).symm⟩
    have hall := hpairwise.forall_of_forall fun _ _ _ => rfl
    exact FileTree.read_eq_ok_iff.mpr ⟨_, h.resolve file hfile,
      h.holds file hfile fun file' hfile' hhere => hall hfile' hfile hhere⟩

end

/-- The tables that are written into a tree: all of them, or those before the first fault. -/
def writtenOn : List (Path × Table) → FileTree → List (Path × Table)
  | [], _ => []
  | (path, table) :: rest, t =>
    match (FileAccess.writeTextWithin path table.toCsv : StateM FileTree _) t with
    | (.ok (), t') => (path, table) :: writtenOn rest t'
    | (.error _, _) => []

theorem isPrefix_writtenOn (files : List (Path × Table)) (t : FileTree) :
    writtenOn files t <+: files := by
  fun_induction writtenOn files t with
  | case1 => exact List.prefix_refl _
  | case2 _ _ _ _ _ _ ih => exact (List.prefix_cons_inj _).mpr ih
  | case3 => exact List.nil_prefix

/-- Tables are written in order up to a fault of the file system, if there is one. -/
theorem writeTables_apply (files : List (Path × Table)) (t : FileTree) :
    ∃ result t', (writeTables files : StateM FileTree _) t = (result, t') ∧
      Filed t t' (writtenOn files t) ∧
      (result = .ok (files.map Prod.fst) ∧ writtenOn files t = files ∨
        ∃ fault, result = .error (.file fault)) := by
  induction files generalizing t with
  | nil => exact ⟨_, t, rfl, filed_nil (.refl t), .inl ⟨rfl, rfl⟩⟩
  | cons file rest ih =>
    obtain ⟨path, table⟩ := file
    unfold writeTables writtenOn
    obtain ⟨t', ⟨hwrite, hwritten⟩ | ⟨fault, hwrite, hkeeps⟩⟩ :=
      FileTree.writeTextWithin_apply path table.toCsv t
    · obtain ⟨result, t'', hrest, hfiled, hresult⟩ := ih t'
      simp only [hwrite]
      refine ⟨result.map (path :: ·), t'', ?_, hfiled.cons hwritten, ?_⟩
      · rw [bind_apply_of_eq hwrite]
        simp only
        rw [bind_apply_of_eq hrest]
        rfl
      · obtain ⟨rfl, hall⟩ | ⟨fault, rfl⟩ := hresult
        · exact .inl ⟨rfl, by rw [hall]⟩
        · exact .inr ⟨fault, rfl⟩
    · simp only [hwrite]
      refine ⟨_, t', ?_, filed_nil hkeeps, .inr ⟨fault, rfl⟩⟩
      rw [bind_apply_of_eq hwrite]
      rfl

/-- The tables that are written into a tree once their directory is made. -/
def writtenIn (directory : Path) (files : List (Path × Table)) (t : FileTree) :
    List (Path × Table) :=
  match (FileAccess.makeDirectories directory : StateM FileTree _) t with
  | (.ok (), t') => writtenOn files t'
  | (.error _, _) => []

theorem isPrefix_writtenIn (directory : Path) (files : List (Path × Table)) (t : FileTree) :
    writtenIn directory files t <+: files := by
  unfold writtenIn
  split
  · exact isPrefix_writtenOn files _
  · exact List.nil_prefix

theorem writeReports_apply (reports : List MethodReport) (style : ReportStyle) (earlyWindow : Float)
    (directory : Path) (t : FileTree) {files : List (Path × Table)}
    (hfiles : reportFiles reports style earlyWindow directory = files) :
    ∃ result t',
      (writeReports reports style earlyWindow directory : StateM FileTree _) t = (result, t') ∧
      Filed t t' (writtenIn directory files t) ∧
      (result = .ok (files.map Prod.fst) ∧ writtenIn directory files t = files ∨
        ∃ fault, result = .error (.file fault)) := by
  have hadds := FileTree.adds_makeDirectories directory t
  unfold writeReports writtenIn
  cases hmade : (FileAccess.makeDirectories directory : StateM FileTree _) t with
  | mk made t' =>
    rw [hmade] at hadds
    rw [bind_apply_of_eq hmade]
    cases made with
    | error fault => exact ⟨_, t', rfl, filed_nil hadds, .inr ⟨fault, rfl⟩⟩
    | ok =>
      obtain ⟨result, t'', hrest, hfiled, hdone⟩ := writeTables_apply files t'
      refine ⟨result, t'', ?_, hfiled.of_keeps hadds, hdone⟩
      simp only [hfiles]
      exact hrest

section

variable {settings : Settings} {methods : List Method}

theorem map_name_of_select (hselect : settings.select names = .ok methods) :
    methods.map Method.name = (if names = [] then settings.methods.map Method.name else names) ∧
      ∀ method ∈ methods, method ∈ settings.methods := by
  unfold Settings.select at hselect
  split_ifs at hselect ⊢ with hall
  · obtain rfl := Except.ok.inj hselect
    exact ⟨rfl, fun _ => id⟩
  · have hfound := mapM_eq_ok_iff.mp hselect
    clear hselect hall
    induction hfound with
    | nil => simp
    | cons hfirst hrest ih =>
      obtain ⟨hmem, hname⟩ := Settings.mem_of_findMethod hfirst
      exact ⟨by rw [List.map_cons, hname, ih.1], List.forall_mem_cons.mpr ⟨hmem, ih.2⟩⟩

variable {m : Type → Type} [Monad m] [LawfulMonad m]

theorem always_names (services : Services m) (p : Params Float) (methods : List Method)
    (journal : Journal) :
    Always (fun result => result.1.map MethodReport.method = methods.map Method.name)
      ((methods.mapM (runMethod services.running p)).run journal) := by
  refine (always_reports services p methods journal).imp fun result hreports => ?_
  rw [eq_comm, ← List.forall₂_eq_eq_eq, List.forall₂_map_left_iff, List.forall₂_map_right_iff]
  exact hreports.1.imp fun _ _ hreport => hreport.1.symm

/-- The names of selected methods are apart if each of them is given at most once and none of them
has a separator. -/
theorem apart_of_select (hvalid : settings.validate = .ok ())
    (hselect : settings.select names = .ok methods) (hnodup : names.Nodup)
    (hplain : ∀ method ∈ settings.methods, '/' ∉ method.name.toList) :
    Apart earlyWindow (methods.map Method.name) := by
  obtain ⟨hnames, hmem⟩ := map_name_of_select hselect
  refine apart_of_plain ?_ (List.forall_mem_map.mpr fun method hmethod => hplain _ (hmem _ hmethod))
  rw [hnames]
  split_ifs
  · exact (Settings.validate_eq_ok_iff.mp hvalid).2.1
  · exact hnodup

def filesOf (settings : Settings) (reports : List MethodReport) (directory : Path) :
    List (Path × Table) :=
  reportFiles reports settings.report settings.params.earlyWindow directory

/-- The files of a batch have different paths exactly if no two of the selected methods, one that is
selected twice included, have names of one file. Whatever a tree looks like, and wherever writing
ends, all tables that were written are left in it exactly if no two different ones went to one place.
For names that are apart, as they are if none has a separator and none is repeated, both are so. -/
theorem run_writeReports (hvalid : settings.validate = .ok ())
    (hselect : settings.select names = .ok methods) (services : Services m) (journal : Journal) :
    (names.Nodup → (∀ method ∈ settings.methods, '/' ∉ method.name.toList) →
      Apart settings.params.earlyWindow (methods.map Method.name)) ∧
    Always (fun result => ∃ reports, result.1 = .ok reports ∧
        ∀ directory files, filesOf settings reports directory = files →
          ((files.map Prod.fst).Pairwise (fun p q => p.same q = false) ↔
            (methods.map Method.name).Pairwise fun name name' =>
              fileParts settings.params.earlyWindow name ≠
                fileParts settings.params.earlyWindow name') ∧
          ∀ t : FileTree, ∃ answer t',
            (writeReports reports settings.report settings.params.earlyWindow directory :
              StateM FileTree _) t = (answer, t') ∧
            (answer = .ok (files.map Prod.fst) ∧ writtenIn directory files t = files ∨
              ∃ fault, answer = .error (.file fault)) ∧
            ((∀ file ∈ writtenIn directory files t, t'.read file.1 = .ok (bytesOf file.2)) ↔
              (writtenIn directory files t).Pairwise fun file file' =>
                t.placeOf file.1 = t.placeOf file'.1 → bytesOf file.2 = bytesOf file'.2) ∧
            (Apart settings.params.earlyWindow (methods.map Method.name) →
              ∀ file ∈ writtenIn directory files t, t'.read file.1 = .ok (bytesOf file.2)))
      ((run services settings names).run journal) := by
  refine ⟨apart_of_select hvalid hselect, ?_⟩
  simp only [run, hselect, StateT.run_bind, StateT.run_pure]
  refine (always_names services settings.params methods journal).bind fun result hnames => ?_
  refine Always.pure ⟨result.1, rfl, ?_⟩
  rintro directory files hfiles
  have hpaths : files.map Prod.fst = reportPaths settings.params.earlyWindow directory
      (methods.map Method.name) := by
    rw [← hfiles, filesOf, map_fst_reportFiles, hnames]
  refine ⟨hpaths ▸ reportPaths_apart_iff, fun t => ?_⟩
  obtain ⟨answer, t', hwrite, hfiled, hanswer⟩ := writeReports_apply result.1
    settings.report settings.params.earlyWindow directory t hfiles
  refine ⟨answer, t', hwrite, hanswer, hfiled.read_iff, fun hapart => ?_⟩
  rw [hfiled.read_iff]
  have hplaces : (reportPaths _ directory _).Pairwise _ := hapart.places t
  rw [← hpaths, List.pairwise_map] at hplaces
  exact (hplaces.sublist (isPrefix_writtenIn directory files t).sublist).imp
    fun hne hhere => absurd hhere hne

end

def noRecordings : Source (StateM FileTree) := fun _ => return .error (.file .notFound)

/-- Settings for two methods, given their names. -/
def ofTwoNames (first second : String) : Settings where
  params := .standard
  columns := .standard
  methods := [⟨first, ⟨"a.csv"⟩, []⟩, ⟨second, ⟨"a.csv"⟩, [⟨0, 1, none⟩]⟩]
  report := .standard ⟨⟨"/data"⟩, ⟨"/conf"⟩⟩

theorem validate_ofTwoNames {first second : String} (h : first ≠ second) :
    (ofTwoNames first second).validate = .ok () := by
  refine Settings.validate_eq_ok_iff.mpr
    ⟨Params.validate_standard, by simpa [ofTwoNames] using h, ?_⟩
  have hforward : Settings.isForward ⟨0, 1, none⟩ = true := by decide +kernel
  simp [ofTwoNames, hforward]

theorem run_writeReports_of_two_names :
    Always (fun result => ∃ reports, result.1 = .ok reports ∧
        ∀ directory files, filesOf (ofTwoNames "AES" "NONE") reports directory = files →
          ∀ t : FileTree, ∃ answer t',
            (writeReports reports (ofTwoNames "AES" "NONE").report
              (ofTwoNames "AES" "NONE").params.earlyWindow directory : StateM FileTree _) t =
                (answer, t') ∧
            (answer = .ok (files.map Prod.fst) ∧ writtenIn directory files t = files ∨
              ∃ fault, answer = .error (.file fault)) ∧
            ∀ file ∈ writtenIn directory files t, t'.read file.1 = .ok (bytesOf file.2))
      ((run (inWords noRecordings) (ofTwoNames "AES" "NONE") ["NONE", "AES"]).run
        (.start "b" ⟨"", 0⟩ none)) := by
  have hselect : (ofTwoNames "AES" "NONE").select ["NONE", "AES"] =
      .ok [⟨"NONE", ⟨"a.csv"⟩, [⟨0, 1, none⟩]⟩, ⟨"AES", ⟨"a.csv"⟩, []⟩] := rfl
  obtain ⟨hapart, hruns⟩ := run_writeReports (validate_ofTwoNames (by decide)) hselect
    (inWords noRecordings) (.start "b" ⟨"", 0⟩ none)
  refine hruns.imp fun result hresult => ?_
  obtain ⟨reports, hreports, hbatch⟩ := hresult
  refine ⟨reports, hreports, fun directory files hfiles t => ?_⟩
  obtain ⟨answer, t', hwrite, hanswer, -, hleft⟩ := (hbatch directory files hfiles).2 t
  exact ⟨answer, t', hwrite, hanswer, hleft (hapart (by decide) (by decide))⟩

/-- What a batch without recordings reports of two methods, one of which has a scenario. -/
def reportsOfTwo (first second : String) : List MethodReport :=
  [⟨first, []⟩, ⟨second, [⟨1, .error (.file .notFound)⟩]⟩]

/-- Of two names that differ in idle separators the first one has its table replaced. -/
theorem table_replaced_of_idle_separator :
    (ofTwoNames "x/y" "x//y").validate = .ok () ∧
      ∃ reports journal' paths t',
        ((run (inWords noRecordings) (ofTwoNames "x/y" "x//y") []).run
          (.start "b" ⟨"", 0⟩ none)).run ⟨[], []⟩ = (some (.ok reports, journal'), ⟨[], []⟩) ∧
        (writeReports reports (ofTwoNames "x/y" "x//y").report
          (ofTwoNames "x/y" "x//y").params.earlyWindow ⟨"out"⟩ : StateM FileTree _) ⟨[], []⟩ =
            (.ok paths, t') ∧
        ¬ paths.Pairwise (fun p q => p.same q = false) ∧
        ∃ file ∈ filesOf (ofTwoNames "x/y" "x//y") reports ⟨"out"⟩,
          t'.read file.1 ≠ .ok (bytesOf file.2) := by
  obtain ⟨journal', hrun⟩ : ∃ journal',
      ((run (inWords noRecordings) (ofTwoNames "x/y" "x//y") []).run
        (.start "b" ⟨"", 0⟩ none)).run ⟨[], []⟩ =
          (some (.ok (reportsOfTwo "x/y" "x//y"), journal'), ⟨[], []⟩) := ⟨_, rfl⟩
  obtain ⟨answer, t', hwrite, hfiled, hanswer⟩ :=
    writeReports_apply (reportsOfTwo "x/y" "x//y") (ofTwoNames "x/y" "x//y").report
      (ofTwoNames "x/y" "x//y").params.earlyWindow ⟨"out"⟩ ⟨[], []⟩ rfl
  have hsucceeds : (fault? ((writeReports (reportsOfTwo "x/y" "x//y")
      (ofTwoNames "x/y" "x//y").report (ofTwoNames "x/y" "x//y").params.earlyWindow ⟨"out"⟩ :
        StateM FileTree _) ⟨[], []⟩).1).isNone := by decide +kernel
  rw [hwrite] at hsucceeds
  obtain ⟨rfl, hall⟩ | ⟨fault, rfl⟩ := hanswer
  · rw [hall] at hfiled
    refine ⟨validate_ofTwoNames (by decide), _, journal', _, t', hrun, hwrite, ?_, ?_⟩
    · rw [map_fst_reportFiles, reportPaths_apart_iff]
      decide +kernel
    · by_contra hkept
      push Not at hkept
      have hpairwise := hfiled.read_iff.mp hkept
      have hsame := List.rel_of_pairwise_cons hpairwise List.mem_cons_self (by decide +kernel)
      exact absurd hsame (by decide +kernel)
  · cases hsucceeds

end EnergyProfile.Batch
