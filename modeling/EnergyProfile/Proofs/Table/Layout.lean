import EnergyProfile.Proofs.Table.Shape
import EnergyProfile.Proofs.Text.Trimming
import Mathlib

/-!
# The layout of tables

A table is laid out in lines of one width, cut at the same places. In every line the labels and each
column have a field of their own, just wide enough for the widest text in it, and the rest of a field is
spaces: behind a label, in front of a cell. So the fields of a line hold its record, whatever it says.
-/

namespace EnergyProfile

set_option autoImplicit false

namespace Text

/-- A text that neither begins nor ends with a space, so that spaces beside it can be told from it. -/
def Flush (s : String) : Prop :=
  s.toList.head? ≠ some ' ' ∧ s.toList.getLast? ≠ some ' '

theorem dropWhile_space {cs : List Char} (h : cs.head? ≠ some ' ') :
    cs.dropWhile (· == ' ') = cs := by
  cases cs with
  | nil => rfl
  | cons c cs =>
    rw [List.dropWhile_cons_of_neg]
    simpa using h

theorem Flush.trimBoth_eq {s : String} (h : Flush s) : trimBoth (· == ' ') s.toList = s.toList := by
  rw [trimBoth, dropWhile_space h.1, dropWhile_space, List.reverse_reverse]
  rw [List.head?_reverse]
  exact h.2

theorem isSpace_of_mem_replicate (n : Nat) : ∀ c ∈ List.replicate n ' ', (c == ' ') = true := by
  intro c hc
  rw [List.eq_of_mem_replicate hc]
  rfl

theorem Flush.trimBoth_append_spaces {s : String} (h : Flush s) (n : Nat) :
    trimBoth (· == ' ') (s.toList ++ List.replicate n ' ') = s.toList := by
  rw [trimBoth_append_right (isSpace_of_mem_replicate n), h.trimBoth_eq]

theorem Flush.trimBoth_spaces_append {s : String} (h : Flush s) (n : Nat) :
    trimBoth (· == ' ') (List.replicate n ' ' ++ s.toList) = s.toList := by
  rw [trimBoth_append_left (isSpace_of_mem_replicate n), h.trimBoth_eq]

theorem toList_padRight (width : Nat) (s : String) :
    (padRight width s).toList = s.toList ++ List.replicate (width - s.length) ' ' := by
  simp [padRight, spaces]

theorem toList_padLeft (width : Nat) (s : String) :
    (padLeft width s).toList = List.replicate (width - s.length) ' ' ++ s.toList := by
  simp [padLeft, spaces]

end Text

namespace Table

open Text

/-- The lines of the laid out text. -/
def lines (t : Table) : List (List Char) :=
  t.toText.toList.splitOn '\n'

/-- The widths of the fields behind the labels: two spaces and the column. -/
def fieldWidths (t : Table) : List Nat :=
  t.columnWidths.map (2 + ·)

def lineWidth (t : Table) : Nat :=
  t.labelWidth + t.fieldWidths.sum

/-- Where the field of a column begins: behind the labels and the fields of all columns before. -/
def offset (t : Table) (j : Nat) : Nat :=
  t.labelWidth + (t.fieldWidths.take j).sum

/-- What a line has in the field of a column. -/
def field (t : Table) (line : List Char) (j : Nat) : List Char :=
  (line.drop (t.offset j)).take (t.fieldWidths.getD j 0)

/-- A line whose fields hold the texts of a record, which are had in full by taking off spaces unless
they have some at their own ends. -/
structure Aligned (t : Table) (record : List String) (line : List Char) : Prop where
  length : line.length = t.lineWidth
  label : ∀ label, record[0]? = some label → line.take t.labelWidth =
    label.toList ++ List.replicate (t.labelWidth - label.length) ' '
  cell : ∀ (j : Nat) (cell : String), record[j + 1]? = some cell → t.field line j =
    List.replicate (t.fieldWidths.getD j 0 - cell.length) ' ' ++ cell.toList
  label_trimmed : ∀ label, record[0]? = some label → Flush label →
    trimBoth (· == ' ') (line.take t.labelWidth) = label.toList
  cell_trimmed : ∀ (j : Nat) (cell : String), record[j + 1]? = some cell → Flush cell →
    trimBoth (· == ' ') (t.field line j) = cell.toList

/-- No text of the table has a line break in it. -/
def Unbroken (t : Table) : Prop :=
  ∀ record ∈ t.records, ∀ text ∈ record, '\n' ∉ text.toList

theorem isGreatest_widest {texts : List String} (h : texts ≠ []) :
    IsGreatest {n | ∃ text ∈ texts, text.length = n} (widest texts) := by
  obtain ⟨m, hm⟩ : ∃ m, (texts.map String.length).max? = some m := by
    rw [← Option.isSome_iff_exists, List.isSome_max?_iff]
    simpa using h
  have hwidest : widest texts = m := by
    rw [widest, List.foldl_max, hm]
    exact Nat.zero_max m
  obtain ⟨hmem, hle⟩ := List.max?_eq_some_iff.mp hm
  rw [hwidest]
  constructor
  · simpa using hmem
  · rintro n ⟨text, htext, rfl⟩
    exact hle _ (List.mem_map_of_mem htext)

theorem length_columnWidths (t : Table) : t.columnWidths.length = t.columns.length := by
  simp [columnWidths]

theorem getElem?_columnWidths {t : Table} {j : Nat} {name : String}
    (h : t.columns[j]? = some name) :
    t.columnWidths[j]? = some (widest (name :: t.rows.map fun row => row.cells.getD j "")) := by
  simp [columnWidths, List.getElem?_zipIdx, h]

/-- The texts that stand in one place of all records. -/
def fieldTexts (t : Table) (place : Nat) : List String :=
  t.records.filterMap (·[place]?)

theorem fieldTexts_zero (t : Table) : t.fieldTexts 0 = t.indexName :: t.rows.map Row.label := by
  simp [fieldTexts, records, List.filterMap_map]

theorem Rectangular.fieldTexts_succ {t : Table} (h : t.Rectangular) {j : Nat} {name : String}
    (hj : t.columns[j]? = some name) :
    t.fieldTexts (j + 1) = name :: t.rows.map fun row => row.cells.getD j "" := by
  have hlt : j < t.columns.length := (List.getElem?_eq_some_iff.mp hj).1
  have hrows : t.rows.filterMap (fun row => row.cells[j]?) =
      t.rows.map fun row => row.cells.getD j "" := by
    rw [← List.filterMap_eq_map]
    apply List.filterMap_congr
    intro row hrow
    have hrange : j < row.cells.length := (h row hrow).symm ▸ hlt
    simp [hrange]
  simp [fieldTexts, records, List.filterMap_map, hj, hrows]

/-- The labels and each column are as wide as the widest text in them, header and rows alike. -/
structure Widths (t : Table) : Prop where
  length : t.columnWidths.length = t.columns.length
  labels : IsGreatest {n | ∃ text ∈ t.fieldTexts 0, text.length = n} t.labelWidth
  columns : ∀ j < t.columns.length,
    IsGreatest {n | ∃ text ∈ t.fieldTexts (j + 1), text.length = n} (t.columnWidths.getD j 0)

theorem Rectangular.widths {t : Table} (h : t.Rectangular) : t.Widths := by
  constructor
  · exact t.length_columnWidths
  · rw [fieldTexts_zero]
    exact isGreatest_widest (List.cons_ne_nil _ _)
  · intro j hj
    have hname : t.columns[j]? = some t.columns[j] := List.getElem?_eq_getElem hj
    rw [h.fieldTexts_succ hname, List.getD_eq_getElem?_getD, getElem?_columnWidths hname]
    exact isGreatest_widest (List.cons_ne_nil _ _)

theorem mem_fieldTexts {t : Table} {record : List String} (hrecord : record ∈ t.records)
    {place : Nat} {text : String} (h : record[place]? = some text) :
    text ∈ t.fieldTexts place :=
  List.mem_filterMap.mpr ⟨record, hrecord, h⟩

/-- The part of a line that is written for a cell. -/
def cellPart (width : Nat) (cell : String) : List Char :=
  ("  " ++ padLeft width cell).toList

theorem cellPart_eq {width : Nat} {cell : String} (h : cell.length ≤ width) :
    cellPart width cell = List.replicate (2 + width - cell.length) ' ' ++ cell.toList := by
  have hspaces : "  ".toList = List.replicate 2 ' ' := rfl
  rw [cellPart, String.toList_append, toList_padLeft, hspaces, ← List.append_assoc,
    List.replicate_append_replicate, Nat.add_sub_assoc h]

theorem toList_textLine (labelWidth : Nat) (widths : List Nat) (label : String)
    (cells : List String) :
    (textLine labelWidth widths (label :: cells)).toList =
      (padRight labelWidth label).toList ++ (List.zipWith cellPart widths cells).flatten := by
  have hpart : cellPart = fun width cell => "  ".toList ++ (padLeft width cell).toList := by
    funext width cell
    exact String.toList_append
  rw [hpart]
  simp only [textLine, String.toList_append, String.toList_join, List.flatMap, List.map_zipWith]

/-- Parts one after another are cut apart where their lengths add up. -/
theorem take_drop_flatten {parts : List (List Char)} {lengths : List Nat}
    (hlengths : parts.map List.length = lengths) {j : Nat} (hj : j < parts.length) :
    (parts.flatten.drop (lengths.take j).sum).take (lengths.getD j 0) = parts[j] := by
  have hlt : j < lengths.length := by simpa [← hlengths] using hj
  have hcut := List.drop_take_succ_flatten_eq_getElem parts j hj
  rw [hlengths, List.drop_take, List.sum_take_succ lengths j hlt, Nat.add_sub_cancel_left] at hcut
  rwa [List.getD_eq_getElem?_getD, List.getElem?_eq_getElem hlt]

/-- A record whose texts are no wider than the places where they go. -/
structure Fits (t : Table) (label : String) (cells : List String) : Prop where
  label : label.length ≤ t.labelWidth
  length : cells.length = t.columns.length
  cell : ∀ (j : Nat) (cell : String), cells[j]? = some cell →
    cell.length ≤ t.columnWidths.getD j 0

theorem Rectangular.fits {t : Table} (h : t.Rectangular) {label : String} {cells : List String}
    (hrecord : label :: cells ∈ t.records) : t.Fits label cells := by
  have hlength : cells.length = t.columns.length := Nat.succ.inj (h.length_record _ hrecord)
  constructor
  · exact h.widths.labels.2 ⟨label, mem_fieldTexts hrecord rfl, rfl⟩
  · exact hlength
  · intro j cell hcell
    have hj : j < t.columns.length := hlength ▸ (List.getElem?_eq_some_iff.mp hcell).1
    exact (h.widths.columns j hj).2 ⟨cell, mem_fieldTexts hrecord hcell, rfl⟩

namespace Fits

variable {t : Table} {label : String} {cells : List String}

theorem length_padRight (h : t.Fits label cells) :
    (padRight t.labelWidth label).toList.length = t.labelWidth := by
  rw [String.length_toList, Text.length_padRight, Nat.max_eq_left h.label]

theorem getElem_le (h : t.Fits label cells) {j : Nat} (hj : j < cells.length)
    (hcolumn : j < t.columnWidths.length) : cells[j].length ≤ t.columnWidths[j] := by
  have hcell := h.cell j _ (List.getElem?_eq_getElem hj)
  rwa [List.getD_eq_getElem?_getD, List.getElem?_eq_getElem hcolumn] at hcell

/-- The cells are written in parts as wide as the fields. -/
theorem lengths_cellParts (h : t.Fits label cells) :
    (List.zipWith cellPart t.columnWidths cells).map List.length = t.fieldWidths := by
  apply List.ext_getElem
  · simp [fieldWidths, length_columnWidths, h.length]
  · intro j hj hj'
    simp only [List.length_map, List.length_zipWith] at hj
    have hcell := h.getElem_le (j := j) (by omega) (by omega)
    simp only [List.getElem_map, List.getElem_zipWith, fieldWidths, cellPart_eq hcell,
      List.length_append, List.length_replicate, String.length_toList]
    omega

theorem length_textLine (h : t.Fits label cells) :
    (textLine t.labelWidth t.columnWidths (label :: cells)).toList.length = t.lineWidth := by
  rw [toList_textLine, List.length_append, h.length_padRight, List.length_flatten,
    h.lengths_cellParts, lineWidth]

theorem take_textLine (h : t.Fits label cells) :
    (textLine t.labelWidth t.columnWidths (label :: cells)).toList.take t.labelWidth =
      label.toList ++ List.replicate (t.labelWidth - label.length) ' ' := by
  rw [toList_textLine, List.take_left' h.length_padRight, toList_padRight]

theorem field_textLine (h : t.Fits label cells) {j : Nat} {cell : String}
    (hcell : cells[j]? = some cell) :
    t.field (textLine t.labelWidth t.columnWidths (label :: cells)).toList j =
      List.replicate (t.fieldWidths.getD j 0 - cell.length) ' ' ++ cell.toList := by
  obtain ⟨hj, rfl⟩ := List.getElem?_eq_some_iff.mp hcell
  have hcolumn : j < t.columnWidths.length := by
    rw [length_columnWidths, ← h.length]
    exact hj
  have hpart : j < (List.zipWith cellPart t.columnWidths cells).length := by simp [hj, hcolumn]
  rw [field, offset, toList_textLine, ← List.drop_drop, List.drop_left' h.length_padRight,
    take_drop_flatten h.lengths_cellParts hpart, List.getElem_zipWith,
    cellPart_eq (h.getElem_le hj hcolumn)]
  simp [fieldWidths, hcolumn]

theorem aligned (h : t.Fits label cells) :
    t.Aligned (label :: cells) (textLine t.labelWidth t.columnWidths (label :: cells)).toList := by
  constructor
  · exact h.length_textLine
  · rintro _ ⟨rfl⟩
    exact h.take_textLine
  · intro j cell hcell
    exact h.field_textLine hcell
  · rintro _ ⟨rfl⟩ hflush
    rw [h.take_textLine, hflush.trimBoth_append_spaces]
  · intro j cell hcell hflush
    rw [h.field_textLine hcell, hflush.trimBoth_spaces_append]

end Fits

theorem Rectangular.aligned {t : Table} (h : t.Rectangular) {record : List String}
    (hrecord : record ∈ t.records) :
    t.Aligned record (textLine t.labelWidth t.columnWidths record).toList := by
  cases record with
  | nil => cases h.length_record [] hrecord
  | cons label cells => exact (h.fits hrecord).aligned

theorem not_mem_cellPart {width : Nat} {cell : String} (h : '\n' ∉ cell.toList) :
    '\n' ∉ cellPart width cell := by
  simp [cellPart, toList_padLeft, h]

theorem not_mem_textLine {labelWidth : Nat} {widths : List Nat} {record : List String}
    (h : ∀ text ∈ record, '\n' ∉ text.toList) :
    '\n' ∉ (textLine labelWidth widths record).toList := by
  cases record with
  | nil => exact List.not_mem_nil
  | cons label cells =>
    rw [toList_textLine, List.mem_append, not_or]
    constructor
    · simp [toList_padRight, h label List.mem_cons_self]
    · rw [List.mem_flatten]
      rintro ⟨part, hpart, hbreak⟩
      obtain ⟨j, hj, rfl⟩ := List.getElem_of_mem hpart
      rw [List.getElem_zipWith] at hbreak
      exact not_mem_cellPart (h _ (List.mem_cons_of_mem _ (List.getElem_mem _))) hbreak

theorem Unbroken.lines_eq {t : Table} (h : t.Unbroken) :
    t.lines = t.records.map fun record =>
      (textLine t.labelWidth t.columnWidths record).toList := by
  have hbreak : "\n".toList = ['\n'] := rfl
  rw [lines, toText, String.toList_intercalate, hbreak, List.splitOn_intercalate]
  · rw [List.map_map]
    rfl
  · intro line hline
    simp only [List.map_map, List.mem_map, Function.comp_apply] at hline
    obtain ⟨record, hrecord, rfl⟩ := hline
    exact not_mem_textLine (h record hrecord)
  · simp [records]

/-- A rectangular table without line breaks in its texts is laid out in a line for the header and one for
each row. All lines are as wide as the labels and the columns together, and each has its record in the
same fields, no text of it cut short. -/
theorem lines_aligned {t : Table} (h : t.Rectangular) (hbreak : t.Unbroken) :
    t.lines.length = 1 + t.rows.length ∧ t.Widths ∧
      List.Forall₂ t.Aligned ((t.indexName :: t.columns) :: t.rows.map fun row =>
        row.label :: row.cells) t.lines := by
  rw [hbreak.lines_eq]
  refine ⟨?_, h.widths, ?_⟩
  · simp [records, Nat.add_comm]
  · rw [List.forall₂_map_right_iff]
    exact List.forall₂_same.mpr fun record hrecord => h.aligned hrecord

/-- A column without a name and one whose cells are wider than its name, with missing cells and symbols
that are no single byte. -/
theorem lines_aligned_of_uneven_columns :
    let t := ((Table.empty "Scenario" ["", "NONE"]).addRow "scen_1" ["é", "1.0 ± 0.1"]).addRow "all" []
    t.Rectangular ∧ t.Unbroken ∧
      t.toText = "Scenario          NONE\nscen_1    é  1.0 ± 0.1\nall                   " ∧
      t.lines.length = 3 ∧ t.Widths ∧
      List.Forall₂ t.Aligned [["Scenario", "", "NONE"], ["scen_1", "é", "1.0 ± 0.1"], ["all", "", ""]]
        t.lines := by
  intro t
  have ht : t.Rectangular := ((rectangular_empty "Scenario" ["", "NONE"]).addRow "scen_1"
    ["é", "1.0 ± 0.1"]).addRow "all" []
  have hbreak : t.Unbroken := by
    unfold Unbroken
    decide
  obtain ⟨hlength, hwidths, haligned⟩ := lines_aligned ht hbreak
  exact ⟨ht, hbreak, by decide, hlength, hwidths, haligned⟩

end Table

end EnergyProfile
