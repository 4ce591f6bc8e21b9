import EnergyProfile.Proofs.Table.Masking

/-!
# Where markers stand

Which cells of a table are masked can be said of their positions alone: the row is labelled with one of
the scenarios, and the column is not excluded. This fixes the masked table, so what is the same for all
positions, as the order and the repetition of scenarios, makes no difference to it.
-/

namespace EnergyProfile.Table

set_option autoImplicit false

/-- The cell at the crossing of a row and a column, both counted from zero. -/
def cellAt? (t : Table) (i j : Nat) : Option String :=
  t.rows[i]?.bind (·.cells[j]?)

theorem rows_ext {rows rows' : List Row} (hlabels : rows.map Row.label = rows'.map Row.label)
    (hcells : ∀ i j : Nat, rows[i]?.bind (·.cells[j]?) = rows'[i]?.bind (·.cells[j]?)) :
    rows = rows' := by
  apply List.ext_getElem
  · simpa using congrArg List.length hlabels
  · intro i hi hi'
    apply Row.ext
    · have hlabel := congrArg (·[i]?) hlabels
      simpa [hi, hi'] using hlabel
    · apply List.ext_getElem?
      intro j
      simpa [hi, hi'] using hcells i j

/-- The row is that of one of the scenarios, and the column is not excluded. -/
def MarkedAt (t : Table) (scenarios : List Nat) (excluded : List String) (i j : Nat) : Prop :=
  (∃ row ∈ t.rows[i]?, ∃ k ∈ scenarios, row.label = scenarioLabel k) ∧
    ∃ column ∈ t.columns[j]?, column ∉ excluded

instance (t : Table) (scenarios : List Nat) (excluded : List String) (i j : Nat) :
    Decidable (t.MarkedAt scenarios excluded i j) :=
  inferInstanceAs (Decidable (_ ∧ _))

/-- A table with markers at these positions that is otherwise the same. -/
structure Masked (t t' : Table) (scenarios : List Nat) (excluded : List String) (marker : String) :
    Prop where
  indexName : t'.indexName = t.indexName
  columns : t'.columns = t.columns
  labels : t'.rows.map Row.label = t.rows.map Row.label
  marked : ∀ i j, t.MarkedAt scenarios excluded i j →
    t'.cellAt? i j = (t.cellAt? i j).map fun _ => marker
  kept : ∀ i j, ¬ t.MarkedAt scenarios excluded i j → t'.cellAt? i j = t.cellAt? i j

namespace Masked

variable {t t' t'' : Table} {scenarios scenarios' : List Nat} {excluded : List String}
  {marker : String}

theorem cellAt?_eq (h : Masked t t' scenarios excluded marker) (i j : Nat) :
    t'.cellAt? i j = (t.cellAt? i j).map fun cell =>
      if t.MarkedAt scenarios excluded i j then marker else cell := by
  by_cases hmarked : t.MarkedAt scenarios excluded i j
  · simp only [h.marked i j hmarked, if_pos hmarked]
  · simp [h.kept i j hmarked, if_neg hmarked]

theorem getElem?_label (h : Masked t t' scenarios excluded marker) (i : Nat) :
    t'.rows[i]?.map Row.label = t.rows[i]?.map Row.label := by
  rw [← List.getElem?_map, ← List.getElem?_map, h.labels]

theorem unique (h : Masked t t' scenarios excluded marker)
    (h' : Masked t t'' scenarios excluded marker) : t' = t'' := by
  apply Table.ext
  · rw [h.indexName, h'.indexName]
  · rw [h.columns, h'.columns]
  · apply rows_ext
    · rw [h.labels, h'.labels]
    · intro i j
      exact (h.cellAt?_eq i j).trans (h'.cellAt?_eq i j).symm

theorem markedAt_iff (h : Masked t t' scenarios excluded marker) (i j : Nat) :
    t'.MarkedAt scenarios excluded i j ↔ t.MarkedAt scenarios excluded i j := by
  have hlabel := h.getElem?_label i
  unfold MarkedAt
  rw [h.columns]
  apply and_congr_left
  intro _
  cases hrow : t.rows[i]? <;> cases hrow' : t'.rows[i]? <;> simp_all

theorem trans (h : Masked t t' scenarios excluded marker)
    (h' : Masked t' t'' scenarios excluded marker) : Masked t t'' scenarios excluded marker where
  indexName := h'.indexName.trans h.indexName
  columns := h'.columns.trans h.columns
  labels := h'.labels.trans h.labels
  marked i j hmarked := by
    rw [h'.marked i j ((h.markedAt_iff i j).mpr hmarked), h.marked i j hmarked, Option.map_map]
    rfl
  kept i j hkept := by
    rw [h'.kept i j (mt (h.markedAt_iff i j).mp hkept), h.kept i j hkept]

theorem congr_scenarios (h : Masked t t' scenarios excluded marker)
    (hsame : ∀ k, k ∈ scenarios ↔ k ∈ scenarios') : Masked t t' scenarios' excluded marker := by
  have hmarkedAt (i j : Nat) :
      t.MarkedAt scenarios excluded i j ↔ t.MarkedAt scenarios' excluded i j := by
    simp only [MarkedAt, hsame]
  constructor
  · exact h.indexName
  · exact h.columns
  · exact h.labels
  · intro i j hmarked
    exact h.marked i j ((hmarkedAt i j).mpr hmarked)
  · intro i j hkept
    exact h.kept i j (mt (hmarkedAt i j).mp hkept)

/-- The row of a scenario is left alone by markers for other ones, however alike their labels are. -/
theorem getElem?_of_not_mem (h : Masked t t' scenarios excluded marker) {i k : Nat} {row : Row}
    (hrow : t.rows[i]? = some row) (hlabel : row.label = scenarioLabel k) (hk : k ∉ scenarios) :
    t'.rows[i]? = some row := by
  have hlabel' := h.getElem?_label i
  rw [hrow, Option.map_some, Option.map_eq_some_iff] at hlabel'
  obtain ⟨row', hrow', hsame⟩ := hlabel'
  have hunmarked (j : Nat) : ¬ t.MarkedAt scenarios excluded i j := by
    rintro ⟨⟨other, hother, k', hk', heq⟩, -⟩
    obtain rfl := Option.some.inj (hrow.symm.trans hother)
    exact hk (scenarioLabel_inj.mp (hlabel.symm.trans heq) ▸ hk')
  rw [hrow', Option.some.injEq]
  apply Row.ext hsame
  apply List.ext_getElem?
  intro j
  simpa [cellAt?, hrow, hrow'] using h.kept i j (hunmarked j)

end Masked

theorem getElem?_keep_eq_false_iff (columns excluded : List String) (j : Nat) :
    (columns.map fun c => excluded.contains c)[j]? = some false ↔
      ∃ column ∈ columns[j]?, column ∉ excluded := by
  simp [List.getElem?_map, Option.map_eq_some_iff]

theorem cellAt?_maskRows {t : Table} (h : Distinct t.rows) (scenarios : List Nat)
    (excluded : List String) (marker : String) (i j : Nat) :
    (t.maskRows scenarios excluded marker).cellAt? i j = (t.cellAt? i j).map fun cell =>
      if t.MarkedAt scenarios excluded i j then marker else cell := by
  have hrows : (t.maskRows scenarios excluded marker).rows[i]? = _ :=
    (congrArg (·[i]?) (rows_maskRows h scenarios excluded marker)).trans List.getElem?_map
  cases hrow : t.rows[i]? with
  | none => simp [cellAt?, hrow, hrows]
  | some row =>
    have hmarked : t.MarkedAt scenarios excluded i j ↔ row.label ∈ scenarios.map scenarioLabel ∧
        (t.columns.map fun c => excluded.contains c)[j]? = some false := by
      rw [getElem?_keep_eq_false_iff]
      simp [MarkedAt, hrow, eq_comm]
    simp only [cellAt?, hrow, hrows, Option.map_some, Option.bind_some,
      Row.getElem?_maskAmong, hmarked]

theorem masked_maskRows {t : Table} (h : Distinct t.rows) (scenarios : List Nat)
    (excluded : List String) (marker : String) :
    Masked t (t.maskRows scenarios excluded marker) scenarios excluded marker := by
  have hcell := cellAt?_maskRows h scenarios excluded marker
  constructor
  · rfl
  · rfl
  · rw [rows_maskRows h, List.map_map]
    exact List.map_congr_left fun row _ => Row.label_maskAmong _ _ _ row
  · intro i j hmarked
    simp only [hcell, if_pos hmarked]
  · intro i j hkept
    simp [hcell, if_neg hkept]

/-- In a table whose rows have distinct labels, masking puts the marker where it belongs and changes
nothing else, the rows of other scenarios included. So neither the order of the scenarios nor their
repetition matters, nor does it to mask once more. -/
theorem maskRows_marked {t : Table} (h : Distinct t.rows) (scenarios : List Nat)
    (excluded : List String) (marker : String) :
    (∀ t', Masked t t' scenarios excluded marker ↔ t' = t.maskRows scenarios excluded marker) ∧
    (∀ (i k : Nat) (row : Row), t.rows[i]? = some row → row.label = scenarioLabel k →
      k ∉ scenarios → (t.maskRows scenarios excluded marker).rows[i]? = some row) ∧
    (∀ scenarios', (∀ k, k ∈ scenarios ↔ k ∈ scenarios') →
      t.maskRows scenarios' excluded marker = t.maskRows scenarios excluded marker) ∧
    (t.maskRows scenarios excluded marker).maskRows scenarios excluded marker =
      t.maskRows scenarios excluded marker := by
  have hmasked := masked_maskRows h scenarios excluded marker
  refine ⟨fun t' => ⟨fun h' => h'.unique hmasked, ?_⟩, ?_, ?_, ?_⟩
  · rintro rfl
    exact hmasked
  · intro i k row hrow hlabel hk
    exact hmasked.getElem?_of_not_mem hrow hlabel hk
  · intro scenarios' hsame
    exact (masked_maskRows h scenarios' excluded marker).unique (hmasked.congr_scenarios hsame)
  · have hdistinct : Distinct (t.maskRows scenarios excluded marker).rows := by
      unfold Distinct
      rw [hmasked.labels]
      exact h
    exact (hmasked.trans (masked_maskRows hdistinct scenarios excluded marker)).unique hmasked

/-- Labels of which one begins as the other, a column that is there twice, a cell behind the last
column, and scenarios and columns that the table does not have. -/
theorem maskRows_marked_of_alike_labels :
    let t : Table := ⟨"Scenario", ["aes", "des", "aes"],
      [⟨"scen_1", ["a", "b", "c"]⟩, ⟨"scen_10", ["d", "e", "f", "g"]⟩, ⟨"all", ["h", "i"]⟩]⟩
    let masked := t.maskRows [10, 7, 10] ["des", "rsa"] "-"
    Distinct t.rows ∧ Masked t masked [10, 7, 10] ["des", "rsa"] "-" ∧
      masked.rows = [⟨"scen_1", ["a", "b", "c"]⟩, ⟨"scen_10", ["-", "e", "-", "g"]⟩,
        ⟨"all", ["h", "i"]⟩] ∧
      t.maskRows [7, 10] ["des", "rsa"] "-" = masked ∧
      masked.maskRows [10, 7, 10] ["des", "rsa"] "-" = masked := by
  intro t masked
  have hdistinct : Distinct t.rows := by
    unfold Distinct
    decide
  obtain ⟨hmasked, -, hsame, htwice⟩ := maskRows_marked hdistinct [10, 7, 10] ["des", "rsa"] "-"
  exact ⟨hdistinct, (hmasked _).mpr rfl, by decide, hsame [7, 10] (by simp), htwice⟩

end EnergyProfile.Table
