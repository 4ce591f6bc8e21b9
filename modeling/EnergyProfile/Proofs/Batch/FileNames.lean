import EnergyProfile.Batch
import EnergyProfile.Proofs.Files.Paths
import EnergyProfile.Proofs.Json.Numbers

/-!
# The names of report files

The file of a table is named after its method. A name with separators in it is a path of its own, so
names that differ in idle separators only are those of one file. Names without separators never are,
and the files of comparisons are apart from all of them.
-/

namespace EnergyProfile

set_option autoImplicit false

theorem separator_not_mem_toString (n : Nat) : '/' ∉ (toString n).toList := by
  intro h
  rw [Nat.toString_eq_repr, Nat.toList_repr] at h
  have hdigit := Nat.isDigit_of_mem_toDigits (by decide) (by decide) h
  simp at hdigit

theorem separator_not_mem_positional (d : Decimal) : '/' ∉ d.positional.toList := by
  have hdigits := separator_not_mem_toString d.digits
  have hzeros (n : Nat) : '/' ∉ (Decimal.zeros n).toList := by
    simp [Decimal.zeros, List.mem_replicate]
  have htake (n : Nat) : '/' ∉ (toString d.digits).toList.take n := fun h =>
    hdigits (List.mem_of_mem_take h)
  have hdrop (n : Nat) : '/' ∉ (toString d.digits).toList.drop n := fun h =>
    hdigits (List.mem_of_mem_drop h)
  simp only [Decimal.positional]
  split_ifs <;>
    simp only [String.toList_append, String.toList_ofList, List.mem_append, hdigits, hzeros, htake,
      hdrop, not_or, not_false_eq_true, and_self, and_true, true_and] <;>
    decide

theorem separator_not_mem_numberText (x : Float) : '/' ∉ (numberText x).toList := by
  unfold numberText
  split
  · decide
  · split <;> decide
  · simp only [String.toList_append, List.mem_append, not_or]
    exact ⟨by split <;> decide, separator_not_mem_positional _⟩

namespace Batch

variable (earlyWindow : Float)

/-- What the name of the file of a method names, directory by directory. -/
def fileParts (method : String) : List String :=
  Path.named ⟨reportFileName method earlyWindow⟩

theorem reportFileName_eq (method : String) :
    reportFileName method earlyWindow =
      "power_consumption_" ++ (method ++ ("_" ++ (numberText earlyWindow ++ ".csv"))) := by
  change "power_consumption_" ++ method ++ "_" ++ numberText earlyWindow ++ ".csv" = _
  simp only [String.append_assoc]

theorem exists_pieces_reportFileName (method : String) :
    ∃ first rest, Path.pieces ⟨reportFileName method earlyWindow⟩ =
      ("power_consumption_" ++ first) :: rest := by
  obtain ⟨first, rest, hpieces⟩ := List.exists_cons_of_ne_nil (Path.pieces_ne_nil
    ⟨method ++ ("_" ++ (numberText earlyWindow ++ ".csv"))⟩)
  refine ⟨first, rest, ?_⟩
  rw [reportFileName_eq, Path.pieces_append (by decide), hpieces]
  rfl

theorem exists_fileParts (method : String) :
    ∃ first rest, fileParts earlyWindow method = ("power_consumption_" ++ first) :: rest := by
  obtain ⟨first, rest, hpieces⟩ := exists_pieces_reportFileName earlyWindow method
  have hkept (c : String) (hc : c.length < 18) : "power_consumption_" ++ first ≠ c := by
    rintro rfl
    rw [String.length_append] at hc
    have : "power_consumption_".length = 18 := by decide
    omega
  refine ⟨first, rest.filter fun c => c ≠ "" ∧ c ≠ ".", ?_⟩
  rw [fileParts, Path.named, hpieces, List.filter_cons_of_pos]
  simp only [decide_eq_true_eq]
  exact ⟨hkept "" (by decide), hkept "." (by decide)⟩

theorem isAbsolute_reportFileName (method : String) :
    Path.isAbsolute ⟨reportFileName method earlyWindow⟩ = false := by
  simp [Path.isAbsolute, reportFileName_eq]

theorem head_pieces_reportFileName (method : String) :
    (Path.pieces ⟨reportFileName method earlyWindow⟩).head? ≠ some "." := by
  obtain ⟨first, rest, hpieces⟩ := exists_pieces_reportFileName earlyWindow method
  rw [hpieces, List.head?_cons, ne_eq, Option.some.injEq]
  intro h
  simpa using congrArg String.toList h

theorem fileParts_of_plain {method : String} (h : '/' ∉ method.toList) :
    fileParts earlyWindow method = [reportFileName method earlyWindow] := by
  have hplain : '/' ∉ (reportFileName method earlyWindow).toList := by
    simp only [reportFileName_eq, String.toList_append, List.mem_append, not_or]
    exact ⟨by decide, h, by decide, separator_not_mem_numberText _, by decide⟩
  obtain ⟨first, rest, hparts⟩ := exists_fileParts earlyWindow method
  rw [fileParts, Path.named, Path.pieces_of_plain hplain, List.filter_cons,
    List.filter_nil] at hparts ⊢
  split_ifs at hparts ⊢
  rfl

theorem reportFileName_injective {method method' : String}
    (h : reportFileName method earlyWindow = reportFileName method' earlyWindow) :
    method = method' := by
  rw [reportFileName_eq, reportFileName_eq] at h
  simpa [String.append_right_inj, String.append_left_inj] using h

theorem named_comparisonFileName (metric : Metric) :
    Path.named ⟨comparisonFileName metric⟩ = [comparisonFileName metric] := by
  cases metric <;> decide +kernel

theorem isAbsolute_comparisonFileName (metric : Metric) :
    Path.isAbsolute ⟨comparisonFileName metric⟩ = false := by
  cases metric <;> decide +kernel

theorem head_pieces_comparisonFileName (metric : Metric) :
    (Path.pieces ⟨comparisonFileName metric⟩).head? ≠ some "." := by
  cases metric <;> decide +kernel

theorem comparisonFileName_injective {metric metric' : Metric}
    (h : comparisonFileName metric = comparisonFileName metric') : metric = metric' := by
  cases metric <;> cases metric' <;> first | rfl | exact absurd h (by decide +kernel)

theorem fileParts_ne_comparison (method : String) (metric : Metric) :
    fileParts earlyWindow method ≠ [comparisonFileName metric] := by
  intro h
  obtain ⟨first, rest, hparts⟩ := exists_fileParts earlyWindow method
  rw [hparts] at h
  have hfirst := congrArg String.toList (List.cons.inj h).1
  have hletter : (comparisonFileName metric).toList.head? = some 'c' := by
    cases metric <;> decide +kernel
  rw [← hfirst] at hletter
  simp at hletter

def methodPath (directory : Path) (method : String) : Path :=
  directory.join ⟨reportFileName method earlyWindow⟩

def comparisonPath (directory : Path) (metric : Metric) : Path :=
  directory.join ⟨comparisonFileName metric⟩

/-- The paths of the files for methods of some names. -/
def reportPaths (directory : Path) (names : List String) : List Path :=
  names.map (methodPath earlyWindow directory) ++
    if 1 < names.length then Metric.all.map (comparisonPath directory) else []

theorem map_fst_reportFiles (reports : List MethodReport) (style : ReportStyle)
    (directory : Path) :
    (reportFiles reports style earlyWindow directory).map Prod.fst =
      reportPaths earlyWindow directory (reports.map MethodReport.method) := by
  simp only [reportFiles, reportPaths, List.map_append, List.map_map, List.length_map]
  congr 1
  split_ifs
  · simp only [comparisonTables, List.map_map]
    rfl
  · rfl

variable {earlyWindow} {directory : Path} {names : List String}

/-- Comparisons apart, a relation between the files is one between the names. -/
theorem pairwise_reportPaths_iff {R : Path → Path → Prop}
    (hcross : ∀ name ∈ names, ∀ metric,
      R (methodPath earlyWindow directory name) (comparisonPath directory metric))
    (hcomparisons : ∀ metric metric', metric ≠ metric' →
      R (comparisonPath directory metric) (comparisonPath directory metric')) :
    (reportPaths earlyWindow directory names).Pairwise R ↔
      names.Pairwise fun name name' =>
        R (methodPath earlyWindow directory name) (methodPath earlyWindow directory name') := by
  have hmetrics : Metric.all.Pairwise (· ≠ ·) := by decide
  unfold reportPaths
  rw [List.pairwise_append, List.pairwise_map]
  refine and_iff_left ⟨?_, ?_⟩
  · split_ifs
    · exact List.pairwise_map.mpr (hmetrics.imp fun h => hcomparisons _ _ h)
    · exact .nil
  · intro p hp q hq
    obtain ⟨name, hname, rfl⟩ := List.mem_map.mp hp
    split_ifs at hq
    · obtain ⟨metric, -, rfl⟩ := List.mem_map.mp hq
      exact hcross name hname metric
    · cases hq

theorem methodPath_same_iff {name name' : String} :
    (methodPath earlyWindow directory name).same (methodPath earlyWindow directory name') = true ↔
      fileParts earlyWindow name = fileParts earlyWindow name' :=
  Path.same_join_iff (isAbsolute_reportFileName _ _) (isAbsolute_reportFileName _ _)
    (head_pieces_reportFileName _ _) (head_pieces_reportFileName _ _)

/-- The paths are different exactly if no two names are those of one file. -/
theorem reportPaths_apart_iff :
    (reportPaths earlyWindow directory names).Pairwise (fun p q => p.same q = false) ↔
      names.Pairwise fun name name' => fileParts earlyWindow name ≠ fileParts earlyWindow name' := by
  rw [pairwise_reportPaths_iff]
  · exact List.Pairwise.iff fun name name' => by
      rw [← Bool.not_eq_true, methodPath_same_iff]
  · intro name _ metric
    rw [← Bool.not_eq_true, methodPath, comparisonPath, Path.same_join_iff
      (isAbsolute_reportFileName _ _) (isAbsolute_comparisonFileName _)
      (head_pieces_reportFileName _ _) (head_pieces_comparisonFileName _),
      named_comparisonFileName]
    exact fileParts_ne_comparison _ _ _
  · intro metric metric' hne
    rw [← Bool.not_eq_true, comparisonPath, comparisonPath, Path.same_join_iff
      (isAbsolute_comparisonFileName _) (isAbsolute_comparisonFileName _)
      (head_pieces_comparisonFileName _) (head_pieces_comparisonFileName _),
      named_comparisonFileName, named_comparisonFileName]
    exact fun h => hne (comparisonFileName_injective (List.cons.inj h).1)

end Batch

end EnergyProfile
