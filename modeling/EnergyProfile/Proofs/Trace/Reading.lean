import EnergyProfile.Proofs.Csv.Reading
import EnergyProfile.TraceFile
import Mathlib.Data.List.GetD
import Mathlib.Data.List.Nodup
import Mathlib.Data.Option.Basic

/-!
# What is read of a table

A recording is read off two columns of a table. In a table with distinct names and rows of one length
the name of a column says which texts stand in it, and nothing but the texts in the two columns decides
what comes of the table: neither the place of the columns, nor what stands in others, nor how a field
is written. White space around a field is no part of it. A quote behind white space opens nothing, so
it is part of the field.
-/

namespace EnergyProfile

set_option autoImplicit false

namespace Csv

open Text

/-- Columns have distinct names, and every row has a field for each of them. -/
structure Regular (table : List (List String)) : Prop where
  distinct : (names table).Nodup
  width : ∀ row ∈ table.tail, row.length = (names table).length

/-- The texts below the name of a column, without white space around them. -/
def HasColumn (table : List (List String)) (name : String) (texts : List String) : Prop :=
  ∃ k : Nat, (names table)[k]? = some name ∧
    table.tail.map (fun row => row[k]?.map trim) = texts.map some

def column (table : List (List String)) (k : Nat) : List String :=
  table.tail.map fun row => trim (row.getD k "")

def column? (table : List (List String)) (name : String) : Option (List String) :=
  ((names table).findIdx? (· = name)).map (column table)

theorem Regular.map_getElem? {table : List (List String)} (h : Regular table) {k : Nat}
    (hk : k < (names table).length) :
    table.tail.map (fun row => row[k]?.map trim) = (column table k).map some := by
  rw [column, List.map_map]
  apply List.map_congr_left
  intro row hrow
  have hlt : k < row.length := h.width row hrow ▸ hk
  rw [Function.comp, List.getD_eq_getElem?_getD, List.getElem?_eq_getElem hlt]
  rfl

theorem Regular.hasColumn_iff {table : List (List String)} (h : Regular table) {name : String}
    {texts : List String} : HasColumn table name texts ↔ column? table name = some texts := by
  unfold column?
  rw [Option.map_eq_some_iff]
  constructor
  · rintro ⟨k, hname, htexts⟩
    obtain ⟨hk, hname⟩ := List.getElem?_eq_some_iff.mp hname
    refine ⟨k, List.findIdx?_eq_some_iff_getElem.mpr ⟨hk, decide_eq_true hname, ?_⟩, ?_⟩
    · intro j hj hsame
      have heq := hname.trans (of_decide_eq_true hsame).symm
      exact hj.ne' (h.distinct.getElem_inj_iff.mp heq)
    · rw [h.map_getElem? hk] at htexts
      exact List.map_injective_iff.mpr (Option.some_injective String) htexts
  · rintro ⟨k, hfound, htexts⟩
    obtain ⟨hk, hname, _⟩ := List.findIdx?_eq_some_iff_getElem.mp hfound
    refine ⟨k, List.getElem?_eq_some_iff.mpr ⟨hk, of_decide_eq_true hname⟩, ?_⟩
    rw [h.map_getElem? hk, htexts]

theorem column?_eq_none_iff {table : List (List String)} {name : String} :
    column? table name = none ↔ name ∉ names table := by
  rw [column?, Option.map_eq_none_iff, List.findIdx?_eq_none_iff]
  constructor
  · intro h hname
    simpa using h name hname
  · rintro h other hother
    exact decide_eq_false fun hsame => h (hsame ▸ hother)

theorem length_of_column?_eq_some {table : List (List String)} {name : String}
    {texts : List String} (h : column? table name = some texts) :
    texts.length = table.tail.length := by
  obtain ⟨k, _, rfl⟩ := Option.map_eq_some_iff.mp h
  rw [column, List.length_map]

end Csv

namespace Recording

open Csv

/-- The texts of the times and values, row by row. -/
structure HasCells (columns : Columns) (table : List (List String))
    (cells : List (String × String)) : Prop where
  times : HasColumn table columns.timestamp (cells.map Prod.fst)
  values : HasColumn table columns.value (cells.map Prod.snd)

/-- The sample in the texts of a time and a value. -/
def readCell (columns : Columns) (row : Nat) (cell : String × String) :
    Except Error (Sample Float) :=
  readSample columns 1 0 row [cell.1, cell.2]

def ofCells (columns : Columns) (cells : List (String × String)) :
    Except Error (Recording Float) := do
  let samples ← (cells.zipIdx 1).mapM fun (cell, row) => readCell columns row cell
  (ofSamples samples).mapError .data

/-- The recording in two columns, if there are such columns. -/
def ofTexts (columns : Columns) (values? times? : Option (List String)) :
    Except Error (Recording Float) :=
  match values?, times? with
  | none, _ => .error (.data (.malformed (.missingColumn columns.value)))
  | some _, none => .error (.data (.malformed (.missingColumn columns.timestamp)))
  | some values, some times => ofCells columns (times.zip values)

theorem readSample_map_trim (columns : Columns) (valueIndex timeIndex number : Nat)
    (row : List String) :
    readSample columns valueIndex timeIndex number (row.map Text.trim) =
      readCell columns number
        (Text.trim (row.getD timeIndex ""), Text.trim (row.getD valueIndex "")) := by
  have htrim (k : Nat) : (row.map Text.trim).getD k "" = Text.trim (row.getD k "") :=
    List.getD_map row "" Text.trim
  simp only [readCell, readSample, readField, htrim, List.getD_cons_zero, List.getD_cons_succ]

theorem ofBytes_eq_ofTexts (columns : Columns) {text : String} {table : List (List String)}
    (h : Holds text table) (hregular : Regular table) :
    ofBytes columns text.toUTF8 =
      ofTexts columns (column? table columns.value) (column? table columns.timestamp) := by
  obtain ⟨records, hheader, hrecords⟩ := header_eq_ok h
  have hsamples (valueIndex timeIndex : Nat) :
      readRows (names table).length (readSample columns valueIndex timeIndex) records =
        (((column table timeIndex).zip (column table valueIndex)).zipIdx 1).mapM
          fun (cell, row) => readCell columns row cell := by
    rw [readRows_eq hrecords hregular.width, column, column, List.zip_map']
    refine mapM_zipIdx_congr (R := fun row cell => cell = (Text.trim (row.getD timeIndex ""),
      Text.trim (row.getD valueIndex ""))) ?_ ?_ 1
    · rw [List.forall₂_map_right_iff, List.forall₂_same]
      intro row _
      rfl
    · rintro row cell number rfl _
      exact readSample_map_trim columns valueIndex timeIndex number row
  have hread : ofBytes columns text.toUTF8 = (do
      let valueIndex ← findColumn (names table) columns.value
      let timeIndex ← findColumn (names table) columns.timestamp
      let samples ← readRows (names table).length (readSample columns valueIndex timeIndex) records
      (ofSamples samples).mapError .data) := by
    rw [ofBytes, hheader]
    rfl
  rw [hread]
  simp only [hsamples]
  unfold findColumn column?
  cases (names table).findIdx? (· = columns.value) with
  | none => rfl
  | some valueIndex =>
    cases (names table).findIdx? (· = columns.timestamp) with
    | none => rfl
    | some timeIndex => rfl

/-- Both texts of a row are numbers. -/
structure Numeric (cell : String × String) (s : Sample Float) : Prop where
  time : readNumber cell.1 = .ok s.time
  value : readNumber cell.2 = .ok s.value

theorem readField_eq_ok_iff {fields : List String} {index row : Nat} {column : String} {x : Float} :
    readField fields index column row = .ok x ↔ readNumber (fields.getD index "") = .ok x := by
  simp only [readField]
  cases readNumber (fields.getD index "") with
  | ok y => simp
  | error reason => simp

theorem readCell_eq_ok_iff {columns : Columns} {row : Nat} {cell : String × String}
    {s : Sample Float} : readCell columns row cell = .ok s ↔ Numeric cell s := by
  simp only [readCell, readSample, bind_eq_ok_iff, readField_eq_ok_iff]
  constructor
  · rintro ⟨time, htime, value, hvalue, hs⟩
    obtain rfl := Except.ok.inj hs
    exact ⟨htime, hvalue⟩
  · intro h
    exact ⟨s.time, h.time, s.value, h.value, rfl⟩

/-- What is read of a table. A column of values is missed before one of times is. The first row that
is not made of numbers is named, counted from one, and of its texts the time comes first. -/
inductive Reads (columns : Columns) (table : List (List String)) :
    Except Error (Recording Float) → Prop where
  | noValues (h : columns.value ∉ names table) :
      Reads columns table (.error (.data (.malformed (.missingColumn columns.value))))
  | noTimes (hvalues : columns.value ∈ names table) (h : columns.timestamp ∉ names table) :
      Reads columns table (.error (.data (.malformed (.missingColumn columns.timestamp))))
  | badTime {before rest : List (String × String)} {cell : String × String}
      {reason : LiteralFault} (h : HasCells columns table (before ++ cell :: rest))
      (hbefore : ∀ cell ∈ before, ∃ s, Numeric cell s)
      (hbad : readNumber cell.1 = .error reason) :
      Reads columns table (.error (.data (.malformed
        (.badValue (before.length + 1) columns.timestamp cell.1 reason))))
  | badValue {before rest : List (String × String)} {cell : String × String} {time : Float}
      {reason : LiteralFault} (h : HasCells columns table (before ++ cell :: rest))
      (hbefore : ∀ cell ∈ before, ∃ s, Numeric cell s) (htime : readNumber cell.1 = .ok time)
      (hbad : readNumber cell.2 = .error reason) :
      Reads columns table (.error (.data (.malformed
        (.badValue (before.length + 1) columns.value cell.2 reason))))
  | noSamples (h : HasCells columns table []) :
      Reads columns table (.error (.data (.malformed .noSamples)))
  | samples {cells : List (String × String)} {r : Recording Float}
      (h : HasCells columns table cells) (hnumeric : List.Forall₂ Numeric cells r.samples) :
      Reads columns table (.ok r)

theorem reads_of_readCell_eq_error {columns : Columns} {table : List (List String)}
    {before rest : List (String × String)} {cell : String × String} {e : Error}
    (h : HasCells columns table (before ++ cell :: rest))
    (hbefore : ∀ cell ∈ before, ∃ s, Numeric cell s)
    (hbad : readCell columns (before.length + 1) cell = .error e) :
    Reads columns table (.error e) := by
  simp only [readCell, readSample, readField, List.getD_cons_zero, List.getD_cons_succ] at hbad
  cases htime : readNumber cell.1 with
  | error reason =>
    rw [htime] at hbad
    obtain rfl := Except.error.inj hbad
    exact .badTime h hbefore htime
  | ok time =>
    cases hvalue : readNumber cell.2 with
    | error reason =>
      rw [htime, hvalue] at hbad
      obtain rfl := Except.error.inj hbad
      exact .badValue h hbefore htime hvalue
    | ok value =>
      rw [htime, hvalue] at hbad
      cases hbad

theorem reads_of_forall_numeric {columns : Columns} {table : List (List String)}
    {cells : List (String × String)} {samples : Trace Float} (h : HasCells columns table cells)
    (hnumeric : List.Forall₂ Numeric cells samples) :
    Reads columns table ((ofSamples samples).mapError .data) := by
  unfold ofSamples
  split
  · rename_i hnone
    rw [hnone, List.forall₂_nil_right_iff] at hnumeric
    exact .noSamples (hnumeric ▸ h)
  · exact .samples h hnumeric

theorem reads_ofCells {columns : Columns} {table : List (List String)}
    {cells : List (String × String)} (h : HasCells columns table cells) :
    Reads columns table (ofCells columns cells) := by
  unfold ofCells
  cases hread : (cells.zipIdx 1).mapM fun (cell, row) => readCell columns row cell with
  | ok samples =>
    have hnumeric := (mapM_eq_ok_iff.mp hread).imp fun _ _ hcell => readCell_eq_ok_iff.mp hcell
    rw [← List.forall₂_map_left_iff (f := Prod.fst) (R := Numeric), List.zipIdx_map_fst]
      at hnumeric
    exact reads_of_forall_numeric h hnumeric
  | error e =>
    obtain ⟨before, entry, rest, hsplit, hbefore, hbad⟩ := exists_of_mapM_eq_error hread
    obtain ⟨before, others, rfl, rfl, hothers⟩ := List.zipIdx_eq_append_iff.mp hsplit
    obtain ⟨cell, rest, rfl, rfl, -⟩ := List.zipIdx_eq_cons_iff.mp hothers.symm
    rw [Nat.add_comm] at hbad
    refine reads_of_readCell_eq_error h ?_ hbad
    intro other hother
    rw [← List.zipIdx_map_fst 1 before, List.mem_map] at hother
    obtain ⟨entry, hentry, rfl⟩ := hother
    obtain ⟨s, hs⟩ := hbefore entry hentry
    exact ⟨s, readCell_eq_ok_iff.mp hs⟩

theorem reads_ofTexts (columns : Columns) {table : List (List String)} (h : Regular table) :
    Reads columns table
      (ofTexts columns (column? table columns.value) (column? table columns.timestamp)) := by
  cases hvalues : column? table columns.value with
  | none => exact .noValues (column?_eq_none_iff.mp hvalues)
  | some values =>
    have hmem : columns.value ∈ names table := by
      by_contra hmissing
      rw [column?_eq_none_iff.mpr hmissing] at hvalues
      cases hvalues
    cases htimes : column? table columns.timestamp with
    | none => exact .noTimes hmem (column?_eq_none_iff.mp htimes)
    | some times =>
      have hlength : times.length = values.length :=
        (length_of_column?_eq_some htimes).trans (length_of_column?_eq_some hvalues).symm
      apply reads_ofCells
      constructor
      · rw [List.map_fst_zip hlength.le, h.hasColumn_iff, htimes]
      · rw [List.map_snd_zip hlength.ge, h.hasColumn_iff, hvalues]

/-- Two texts whose tables agree in the columns of values and times are read alike, and as the texts
in those columns say. Every text holds a table, so nothing is asked of it but distinct names and rows
of one length. -/
theorem ofBytes_of_same_columns :
    (∀ text : String, ∃! table, Holds text table) ∧
    ∀ (columns : Columns) (text text' : String) (table table' : List (List String)),
      Holds text table → Holds text' table' → Regular table → Regular table' →
      (∀ name ∈ [columns.value, columns.timestamp], ∀ texts,
        HasColumn table name texts ↔ HasColumn table' name texts) →
      ofBytes columns text.toUTF8 = ofBytes columns text'.toUTF8 ∧
        Reads columns table (ofBytes columns text.toUTF8) := by
  refine ⟨existsUnique_holds, ?_⟩
  intro columns text text' table table' h h' hregular hregular' hsame
  have hcolumn (name : String) (hname : name ∈ [columns.value, columns.timestamp]) :
      column? table name = column? table' name := by
    apply Option.ext
    intro texts
    rw [← hregular.hasColumn_iff, ← hregular'.hasColumn_iff]
    exact hsame name hname texts
  have hvalue := hcolumn columns.value (by simp)
  have htime := hcolumn columns.timestamp (by simp)
  rw [ofBytes_eq_ofTexts columns h hregular, ofBytes_eq_ofTexts columns h' hregular', ← hvalue,
    ← htime]
  exact ⟨rfl, reads_ofTexts columns hregular⟩

/-- The columns in another order, one of them new and full of separators, with an empty line, quoted
and padded fields, and one bad value. -/
theorem ofBytes_of_same_columns_of_quoted :
    let text := "Timestamp,Current,Value\n0.0,1,0.5\n0.25,2,x\n"
    let text' := "\"Note,\r\n\", Value ,\"Timestamp\"\n\n\"a,\"\"\",0.5\t,\"0.0\"\r\n,\"x\" ,0.25"
    let table := [["Timestamp", "Current", "Value"], ["0.0", "1", "0.5"], ["0.25", "2", "x"]]
    let table' := [["Note,\r\n", " Value ", "Timestamp"], ["a,\"", "0.5\t", "0.0"],
      ["", "x ", "0.25"]]
    Holds text table ∧ Holds text' table' ∧ Regular table ∧ Regular table' ∧
      (∀ name ∈ ["Value", "Timestamp"], ∀ texts,
        HasColumn table name texts ↔ HasColumn table' name texts) ∧
      ofBytes .standard text.toUTF8 = ofBytes .standard text'.toUTF8 ∧
      Reads .standard table (ofBytes .standard text.toUTF8) := by
  intro text text' table table'
  have h : Holds text table := (tableText_iff 0).mpr (by decide +kernel)
  have h' : Holds text' table' := (tableText_iff 0).mpr (by decide +kernel)
  have hregular : Regular table := ⟨by decide, by decide⟩
  have hregular' : Regular table' := ⟨by decide, by decide⟩
  have hsame : ∀ name ∈ ["Value", "Timestamp"], ∀ texts,
      HasColumn table name texts ↔ HasColumn table' name texts := by
    have hcolumn : ∀ name ∈ ["Value", "Timestamp"], column? table name = column? table' name := by
      decide
    intro name hname texts
    rw [hregular.hasColumn_iff, hregular'.hasColumn_iff, hcolumn name hname]
  refine ⟨h, h', hregular, hregular', hsame, ?_⟩
  exact ofBytes_of_same_columns.2 .standard text text' table table' h h' hregular hregular' hsame

end Recording

end EnergyProfile
