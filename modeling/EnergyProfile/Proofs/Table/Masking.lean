import EnergyProfile.Table
import Mathlib

/-!
# Masked tables

A mask replaces cells and leaves labels, columns and all other cells where they are. Where the labels
of a table are distinct, the first row of a label is its only one, so it does not matter in which
order scenarios are masked and how often.
-/

namespace EnergyProfile

set_option autoImplicit false

attribute [ext] Row Table

theorem scenarioLabel_inj {a b : Nat} : scenarioLabel a = scenarioLabel b ↔ a = b := by
  constructor
  · intro h
    exact Nat.repr_injective ((String.append_right_inj _).mp h)
  · rintro rfl
    rfl

namespace Row

@[simp] theorem label_mask (row : Row) (keep : List Bool) (marker : String) :
    (row.mask keep marker).label = row.label := rfl

theorem getElem?_mask (row : Row) (keep : List Bool) (marker : String) (j : Nat) :
    (row.mask keep marker).cells[j]? =
      row.cells[j]?.map fun cell => if keep[j]? = some false then marker else cell :=
  List.getElem?_mapIdx

theorem mask_mask (row : Row) (keep : List Bool) (marker : String) :
    (row.mask keep marker).mask keep marker = row.mask keep marker := by
  apply Row.ext
  · rfl
  · apply List.ext_getElem?
    intro j
    rw [getElem?_mask, getElem?_mask, Option.map_map]
    congr 1
    funext cell
    simp only [Function.comp_apply, ← ite_or, or_self]

/-- A row that is masked if its label is among some labels. -/
def maskAmong (labels : List String) (keep : List Bool) (marker : String) (row : Row) : Row :=
  if row.label ∈ labels then row.mask keep marker else row

@[simp] theorem label_maskAmong (labels : List String) (keep : List Bool) (marker : String)
    (row : Row) : (row.maskAmong labels keep marker).label = row.label := by
  unfold maskAmong
  split <;> rfl

theorem getElem?_maskAmong (row : Row) (labels : List String) (keep : List Bool) (marker : String)
    (j : Nat) :
    (row.maskAmong labels keep marker).cells[j]? =
      row.cells[j]?.map fun cell =>
        if row.label ∈ labels ∧ keep[j]? = some false then marker else cell := by
  unfold maskAmong
  by_cases hlabel : row.label ∈ labels
  · rw [if_pos hlabel, getElem?_mask]
    simp [hlabel]
  · simp [hlabel]

theorem maskAmong_cons (label : String) (labels : List String) (keep : List Bool)
    (marker : String) (row : Row) :
    (row.maskAmong [label] keep marker).maskAmong labels keep marker =
      row.maskAmong (label :: labels) keep marker := by
  by_cases hlabel : row.label = label
  · by_cases hlabels : row.label ∈ labels
    · simp [maskAmong, hlabel, hlabel ▸ hlabels, mask_mask]
    · simp [maskAmong, hlabel, hlabel ▸ hlabels]
  · simp [maskAmong, hlabel]

end Row

namespace Table

/-- No two rows have the same label. -/
def Distinct (rows : List Row) : Prop := (rows.map Row.label).Nodup

theorem maskRow_eq_map {rows : List Row} (h : Distinct rows) (keep : List Bool)
    (marker label : String) :
    maskRow keep marker label rows = rows.map (Row.maskAmong [label] keep marker) := by
  induction rows with
  | nil => rfl
  | cons row rest ih =>
    obtain ⟨hfirst, hrest⟩ := List.nodup_cons.mp h
    unfold maskRow
    split
    · rename_i hlabel
      have hothers : rest.map (Row.maskAmong [label] keep marker) = rest.map id := by
        apply List.map_congr_left
        intro other hother
        have hne : other.label ≠ label := by
          rintro rfl
          exact hfirst (hlabel ▸ List.mem_map_of_mem hother)
        simp [Row.maskAmong, hne]
      rw [List.map_cons, hothers, List.map_id]
      simp [Row.maskAmong, hlabel]
    · rename_i hlabel
      rw [List.map_cons, ih hrest]
      simp [Row.maskAmong, hlabel]

theorem Distinct.map_maskAmong {rows : List Row} (h : Distinct rows) (labels : List String)
    (keep : List Bool) (marker : String) :
    Distinct (rows.map (Row.maskAmong labels keep marker)) := by
  unfold Distinct
  rw [List.map_map]
  have hlabel : Row.label ∘ Row.maskAmong labels keep marker = Row.label := by
    funext row
    exact Row.label_maskAmong labels keep marker row
  rw [hlabel]
  exact h

/-- Scenario after scenario, the rows of their labels are masked, and no others. -/
theorem foldl_maskRow {rows : List Row} (h : Distinct rows) (scenarios : List Nat)
    (keep : List Bool) (marker : String) :
    scenarios.foldl (fun rows k => maskRow keep marker (scenarioLabel k) rows) rows =
      rows.map (Row.maskAmong (scenarios.map scenarioLabel) keep marker) := by
  induction scenarios generalizing rows with
  | nil =>
    have hsame : Row.maskAmong [] keep marker = id := by
      funext row
      simp [Row.maskAmong]
    rw [List.map_nil, hsame, List.map_id]
    rfl
  | cons k rest ih =>
    rw [List.foldl_cons, maskRow_eq_map h, ih (h.map_maskAmong _ keep marker), List.map_map]
    apply List.map_congr_left
    intro row _
    exact Row.maskAmong_cons _ _ keep marker row

theorem rows_maskRows {t : Table} (h : Distinct t.rows) (scenarios : List Nat)
    (excluded : List String) (marker : String) :
    (t.maskRows scenarios excluded marker).rows =
      t.rows.map (Row.maskAmong (scenarios.map scenarioLabel)
        (t.columns.map fun c => excluded.contains c) marker) :=
  foldl_maskRow h scenarios _ marker

theorem columnIndex?_eq_some {t : Table} {column : String} {k : Nat}
    (h : t.columnIndex? column = some k) : t.columns[k]? = some column := by
  obtain ⟨hk, hcolumn, _⟩ := List.findIdx?_eq_some_iff_getElem.mp h
  rw [List.getElem?_eq_getElem hk, of_decide_eq_true hcolumn]

theorem exists_columnIndex? {t : Table} {column : String} (h : column ∈ t.columns) :
    ∃ k, t.columnIndex? column = some k := by
  have hsome : (t.columnIndex? column).isSome := by
    rw [columnIndex?, List.findIdx?_isSome, List.any_eq_true]
    exact ⟨column, h, decide_eq_true rfl⟩
  exact Option.isSome_iff_exists.mp hsome

theorem cell?_eq_bind {t : Table} {column : String} {k : Nat} (label : String)
    (hk : t.columnIndex? column = some k) :
    t.cell? label column = (t.rows.find? (·.label = label)).bind (·.cells[k]?) := by
  simp only [cell?, hk]
  rfl

theorem cell?_of_not_mem {t : Table} {column : String} (label : String)
    (h : t.columnIndex? column = none) : t.cell? label column = none := by
  simp only [cell?, h]
  rfl

/-- A cell is masked exactly if its row is among the scenarios and its column is not excluded. -/
theorem cell?_maskRows {t : Table} (h : Distinct t.rows) (scenarios : List Nat)
    (excluded : List String) (marker label column : String) :
    (t.maskRows scenarios excluded marker).cell? label column =
      (t.cell? label column).map fun text =>
        if label ∈ scenarios.map scenarioLabel ∧ column ∉ excluded then marker else text := by
  cases hk : t.columnIndex? column with
  | none =>
    have hk' : (t.maskRows scenarios excluded marker).columnIndex? column = none := hk
    rw [cell?_of_not_mem label hk, cell?_of_not_mem label hk']
    rfl
  | some k =>
    have hcolumn := columnIndex?_eq_some hk
    have hlabels : (fun row : Row => decide (row.label = label)) ∘
        Row.maskAmong (scenarios.map scenarioLabel)
          (t.columns.map fun c => excluded.contains c) marker =
        fun row => decide (row.label = label) := by
      funext row
      simp
    have hk' : (t.maskRows scenarios excluded marker).columnIndex? column = some k := hk
    rw [cell?_eq_bind label hk, cell?_eq_bind label hk', rows_maskRows h, List.find?_map, hlabels]
    cases hrow : t.rows.find? (·.label = label) with
    | none => rfl
    | some row =>
      have hlabel := List.find?_some hrow
      rw [decide_eq_true_eq] at hlabel
      have hkeep : (t.columns.map fun c => excluded.contains c)[k]? = some false ↔
          column ∉ excluded := by
        simp [hcolumn]
      simp only [Option.map_some, Option.bind_some, Row.getElem?_maskAmong, hlabel, hkeep]

/-- The rows are those of the scenarios in their order, from the first one on. -/
def Numbered (t : Table) : Prop :=
  ∀ i row, t.rows[i]? = some row → row.label = scenarioLabel (i + 1)

theorem Numbered.distinct {t : Table} (h : t.Numbered) : Distinct t.rows := by
  apply List.pairwise_iff_getElem.mpr
  intro i j hi hj hlt heq
  rw [List.length_map] at hi hj
  rw [List.getElem_map, List.getElem_map, h i _ (List.getElem?_eq_getElem hi),
    h j _ (List.getElem?_eq_getElem hj), scenarioLabel_inj] at heq
  omega

theorem Numbered.find? {t : Table} (h : t.Numbered) (i : Nat) :
    t.rows.find? (·.label = scenarioLabel (i + 1)) = t.rows[i]? := by
  have hlabel (j : Nat) (hj : j < t.rows.length) : t.rows[j].label = scenarioLabel (j + 1) :=
    h j _ (List.getElem?_eq_getElem hj)
  by_cases hi : i < t.rows.length
  · rw [List.getElem?_eq_getElem hi, List.find?_eq_some_iff_getElem]
    refine ⟨decide_eq_true (hlabel i hi), i, hi, rfl, ?_⟩
    intro j hj
    simp only [hlabel, scenarioLabel_inj, Bool.not_eq_true', decide_eq_false_iff_not]
    omega
  · rw [List.getElem?_eq_none (Nat.le_of_not_lt hi), List.find?_eq_none]
    intro row hrow hsame
    obtain ⟨j, hj, rfl⟩ := List.getElem_of_mem hrow
    rw [hlabel j hj, decide_eq_true_eq, scenarioLabel_inj] at hsame
    omega

theorem Numbered.cell? {t : Table} (h : t.Numbered) {column : String} {k : Nat}
    (hk : t.columnIndex? column = some k) (i : Nat) :
    t.cell? (scenarioLabel (i + 1)) column = t.rows[i]?.bind (·.cells[k]?) := by
  rw [cell?_eq_bind _ hk, h.find?]

end Table

end EnergyProfile
