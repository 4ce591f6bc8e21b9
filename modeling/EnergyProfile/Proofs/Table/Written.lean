import EnergyProfile.Proofs.Csv.Reading
import EnergyProfile.Proofs.Table.Shape

/-!
# What is written of a table is read back

Whatever text names, labels and cells are made of, the comma separated form holds the records of the
table, and they are all of one length.
-/

namespace EnergyProfile.Table

set_option autoImplicit false

theorem withoutMark_toCsv {t : Table} (hmark : t.indexName.toList.head? ≠ some '\uFEFF') :
    Csv.withoutMark t.toCsv.toList =
      Csv.write (t.records.map fun record => record.map String.toList) := by
  rw [toCsv, String.toList_ofList]
  apply Csv.withoutMark_eq_self
  intro hhead
  rcases Csv.separates_or_head?_write hhead with hseparates | hname
  · exact absurd hseparates (by decide)
  · exact hmark hname

theorem holds_toCsv {t : Table} (hmark : t.indexName.toList.head? ≠ some '\uFEFF') :
    Csv.Holds t.toCsv t.records := by
  unfold Csv.Holds
  rw [withoutMark_toCsv hmark]
  apply Csv.tableText_write
  intro fields hfields
  obtain ⟨record, hrecord, rfl⟩ := List.mem_map.mp hfields
  cases hrecord with
  | head => exact List.cons_ne_nil _ _
  | tail _ hrest =>
    obtain ⟨row, _, rfl⟩ := List.mem_map.mp hrest
    exact List.cons_ne_nil _ _

/-- A table is written, and its text decodes to its names and to its labels and cells. A name for the
labels that begins with a byte order mark would be taken for the mark of the file. -/
theorem decode_toCsv {t : Table} (h : t.Built)
    (hmark : t.indexName.toList.head? ≠ some '\uFEFF') :
    t.toCsvEqual = .ok t.toCsv ∧
      Csv.decode t.toCsv.toUTF8 =
        .ok ((t.indexName :: t.columns) :: t.rows.map fun row => row.label :: row.cells) := by
  constructor
  · exact h.rectangular.toCsvEqual_eq
  · exact Csv.decode_eq_ok (holds_toCsv hmark) h.rectangular.length_record

/-- Separating symbols, quotes, line breaks and empty texts, in a row that is masked and in one that
is not. -/
theorem decode_toCsv_of_separators :
    let t := (((Table.empty "\"é\"," ["", "a\r\nb"]).addRow "scen_1" ["x", "y"]).addRow "\n"
      ["\""]).maskRows [1] [""] "n/a, ±"
    t.Built ∧ t.indexName.toList.head? ≠ some '\uFEFF' ∧ t.toCsvEqual = .ok t.toCsv ∧
      Csv.decode t.toCsv.toUTF8 = .ok [["\"é\",", "", "a\r\nb"], ["scen_1", "x", "n/a, ±"],
        ["\n", "\"", ""]] := by
  intro t
  have ht : t.Built := (((Built.empty "\"é\"," ["", "a\r\nb"]).addRow "scen_1" ["x", "y"]).addRow
    "\n" ["\""]).maskRows [1] [""] "n/a, ±"
  have hmark : t.indexName.toList.head? ≠ some '\uFEFF' := by decide
  have hrows : t.rows = [⟨"scen_1", ["x", "n/a, ±"]⟩, ⟨"\n", ["\"", ""]⟩] := by decide
  obtain ⟨hwritten, hread⟩ := decode_toCsv ht hmark
  rw [hrows] at hread
  exact ⟨ht, hmark, hwritten, hread⟩

end EnergyProfile.Table
