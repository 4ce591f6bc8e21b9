import EnergyProfile.Proofs.Double.Order
import EnergyProfile.Proofs.RoundTrip.Loading
import EnergyProfile.Proofs.RoundTrip.Rejections

/-!
# Rows of a log

The span of a row is what the two cells of the row say. A cell that is empty, and a row that the table
does not reach, give a span that is never sound, so a sound span was logged as it is.
-/

namespace EnergyProfile

set_option autoImplicit false

/-- Both readings are finite and other than zero, and the start is not after the end. -/
structure ClockSpan.Sound (s : ClockSpan Float) : Prop where
  start_finite : s.start.isFinite = true
  stop_finite : s.stop.isFinite = true
  start_ne_zero : (s.start == 0) = false
  stop_ne_zero : (s.stop == 0) = false
  ordered : s.start ≤ s.stop

theorem ClockSpan.sound_iff (s : ClockSpan Float) : s.Sound ↔
    (Scalar.isFinite s.start = true ∧ Scalar.isFinite s.stop = true) ∧
      (Scalar.equal s.start (Scalar.ofNat 0) = false ∧
        Scalar.equal s.stop (Scalar.ofNat 0) = false) ∧ Scalar.less s.stop s.start = false := by
  constructor
  · intro h
    exact ⟨⟨h.start_finite, h.stop_finite⟩, ⟨h.start_ne_zero, h.stop_ne_zero⟩,
      decide_eq_false (Double.not_lt_of_le h.ordered)⟩
  · rintro ⟨⟨hstart, hstop⟩, ⟨hstart0, hstop0⟩, hless⟩
    exact ⟨hstart, hstop, hstart0, hstop0,
      Double.le_of_not_lt hstart hstop (of_decide_eq_false hless)⟩

theorem RoundTrip.isClean_iff (r : RoundTrip Float) :
    r.defects.isClean = true ↔ ∀ s ∈ r.spans, s.Sound := by
  simp only [isClean_iff_forall_mem, ClockSpan.sound_iff]

namespace Csv

theorem length_of_fieldsText {number index : Nat} {record : Record UInt8} {fields : List (List UInt8)}
    {texts : List String} (h : fieldsText number record index fields = .ok texts) :
    texts.length = fields.length := by
  induction fields generalizing index texts with
  | nil =>
    obtain rfl := Except.ok.inj h
    rfl
  | cons field rest ih =>
    rw [fieldsText] at h
    split at h
    · cases h
    · obtain ⟨tail, htail, h⟩ := bind_eq_ok_iff.mp h
      obtain rfl := Except.ok.inj h
      rw [List.length_cons, List.length_cons, ih htail]

theorem length_of_rowFields {width number : Nat} {record : Record UInt8} {texts : List String}
    (h : rowFields width number record = .ok texts) : texts.length = width := by
  unfold rowFields at h
  split at h
  · rename_i hwidth
    rw [length_of_fieldsText h, List.length_map, hwidth]
  · cases h

theorem rows_of_readRows {β : Type} {width : Nat} {read : Nat → List String → Except Error β}
    {records : List (Record UInt8)} {rows : List β} (h : readRows width read records = .ok rows) :
    rows.length = records.length ∧ ∀ i row, rows[i]? = some row → ∃ record fields,
      records[i]? = some record ∧ rowFields width (i + 1) record = .ok fields ∧
        read (i + 1) fields = .ok row := by
  have hrows := mapM_eq_ok_iff.mp h
  have hlength : rows.length = records.length := by
    rw [← hrows.length_eq, List.length_zipIdx]
  refine ⟨hlength, fun i row hrow => ?_⟩
  obtain ⟨hi, rfl⟩ := List.getElem?_eq_some_iff.mp hrow
  have hrecord : i < records.length := hlength ▸ hi
  have hread := hrows.get (by rwa [List.length_zipIdx]) hi
  simp only [List.get_eq_getElem, List.getElem_zipIdx, Nat.add_comm 1] at hread
  split at hread
  · cases hread
  · rename_i fields hfields
    exact ⟨_, fields, List.getElem?_eq_getElem hrecord, hfields, hread⟩

end Csv

namespace StageLog

/-- The number of rows below the header of a table. -/
def rowCount (bytes : ByteArray) : Nat :=
  match Csv.header bytes with
  | .error _ => 0
  | .ok (_, records) => records.length

/-- The text in a row and a column of a table. Rows are counted from zero. -/
def cell? (bytes : ByteArray) (i : Nat) (column : String) : Option String :=
  match Csv.header bytes with
  | .error _ => none
  | .ok (names, records) => do
    let index ← names.findIdx? (· = column)
    let record ← records[i]?
    let fields ← (Csv.rowFields names.length (i + 1) record).toOption
    fields[index]?

/-- A row has a number for the start and one for the end. An empty text is no number. -/
def Logs (bytes : ByteArray) (i : Nat) (s : ClockSpan Float) : Prop :=
  ∃ start stop, cell? bytes i startColumn = some start ∧ cell? bytes i endColumn = some stop ∧
    readNumber start = .ok s.start ∧ readNumber stop = .ok s.stop

theorem findColumn_eq_ok_iff {path : Path} {names : List String} {name : String} {index : Nat} :
    findColumn path names name = .ok index ↔ names.findIdx? (· = name) = some index := by
  unfold findColumn
  cases names.findIdx? (· = name) with
  | none => simp [malformed]
  | some i => simp

theorem cell?_eq_some {bytes : ByteArray} {i index : Nat} {column : String}
    {names : List String} {records : List (Csv.Record UInt8)} {record : Csv.Record UInt8}
    {fields : List String} (hheader : Csv.header bytes = .ok (names, records))
    (hindex : names.findIdx? (· = column) = some index) (hrecord : records[i]? = some record)
    (hfields : Csv.rowFields names.length (i + 1) record = .ok fields) :
    cell? bytes i column = some (fields.getD index "") := by
  have hlt : index < fields.length := by
    rw [Csv.length_of_rowFields hfields]
    exact (List.findIdx?_eq_some_iff_findIdx_eq.mp hindex).1
  simp [cell?, hheader, hindex, hrecord, hfields, Except.toOption, hlt]

theorem lt_rowCount_of_cell? {bytes : ByteArray} {i : Nat} {column text : String}
    (h : cell? bytes i column = some text) : i < rowCount bytes := by
  unfold cell? at h
  unfold rowCount
  split at h
  · cases h
  · simp only [Option.bind_eq_bind, Option.bind_eq_some_iff] at h
    obtain ⟨_, _, record, hrecord, _⟩ := h
    exact (List.getElem?_eq_some_iff.mp hrecord).1

theorem rows_of_ofBytes {path : Path} {bytes : ByteArray} {table : StageLog}
    (h : ofBytes path bytes = .ok table) : table.length = rowCount bytes ∧
      ∀ i s, table[i]? = some s → ∃ start stop, cell? bytes i startColumn = some start ∧
        cell? bytes i endColumn = some stop ∧ readField path (i + 1) start = .ok s.start ∧
        readField path (i + 1) stop = .ok s.stop := by
  obtain ⟨⟨names, records⟩, hheader, h⟩ := bind_eq_ok_iff.mp h
  obtain ⟨startIndex, hstart, h⟩ := bind_eq_ok_iff.mp h
  obtain ⟨endIndex, hend, h⟩ := bind_eq_ok_iff.mp h
  rw [findColumn_eq_ok_iff] at hstart hend
  replace hheader : Csv.header bytes = .ok (names, records) := by
    cases hbytes : Csv.header bytes with
    | error fault => simp [hbytes, Except.mapError] at hheader
    | ok found => simpa [hbytes, Except.mapError] using hheader
  obtain ⟨hlength, hrows⟩ := Csv.rows_of_readRows h
  constructor
  · rw [hlength, rowCount, hheader]
  · intro i s hs
    obtain ⟨record, fields, hrecord, hfields, hspan⟩ := hrows i s hs
    obtain ⟨start, hreadStart, hspan⟩ := bind_eq_ok_iff.mp hspan
    obtain ⟨stop, hreadStop, hspan⟩ := bind_eq_ok_iff.mp hspan
    obtain rfl := Except.ok.inj hspan
    exact ⟨_, _, cell?_eq_some hheader hstart hrecord hfields,
      cell?_eq_some hheader hend hrecord hfields, hreadStart, hreadStop⟩

theorem readNumber_of_readField {path : Path} {row : Nat} {text : String} {x : Float}
    (h : readField path row text = .ok x) (hfinite : x.isFinite = true) :
    readNumber text = .ok x := by
  unfold readField at h
  split at h
  · obtain rfl := Except.ok.inj h
    exact absurd hfinite (by decide)
  · split at h
    · rename_i hread
      obtain rfl := Except.ok.inj h
      exact hread
    · cases h

theorem readField_of_readNumber {text : String} {x : Float} (h : readNumber text = .ok x)
    (path : Path) (row : Nat) : readField path row text = .ok x := by
  have hne : text ≠ "" := by
    rintro rfl
    cases h
  rw [readField, if_neg hne, h]

theorem logs_of_sound {path : Path} {bytes : ByteArray} {table : StageLog} {i : Nat}
    (h : ofBytes path bytes = .ok table) (hsound : (row table i).Sound) :
    Logs bytes i (row table i) := by
  cases hs : table[i]? with
  | none =>
    rw [row, List.getD_eq_getElem?_getD, hs] at hsound
    exact absurd hsound.start_finite (by decide)
  | some s =>
    have hrow : row table i = s := by
      rw [row, List.getD_eq_getElem?_getD, hs, Option.getD_some]
    rw [hrow] at hsound ⊢
    obtain ⟨start, stop, hstart, hstop, hreadStart, hreadStop⟩ := (rows_of_ofBytes h).2 i s hs
    exact ⟨start, stop, hstart, hstop, readNumber_of_readField hreadStart hsound.start_finite,
      readNumber_of_readField hreadStop hsound.stop_finite⟩

theorem row_eq_of_logs {path : Path} {bytes : ByteArray} {table : StageLog} {i : Nat}
    {s : ClockSpan Float} (h : ofBytes path bytes = .ok table) (hlogs : Logs bytes i s) :
    row table i = s := by
  obtain ⟨start, stop, hstart, hstop, hreadStart, hreadStop⟩ := hlogs
  obtain ⟨hlength, hrows⟩ := rows_of_ofBytes h
  have hi : i < table.length := by
    rw [hlength]
    exact lt_rowCount_of_cell? hstart
  obtain ⟨start', stop', hstart', hstop', hreadStart', hreadStop'⟩ :=
    hrows i _ (List.getElem?_eq_getElem hi)
  obtain rfl := Option.some.inj (hstart.symm.trans hstart')
  obtain rfl := Option.some.inj (hstop.symm.trans hstop')
  have hstartEq := Except.ok.inj (hreadStart'.symm.trans (readField_of_readNumber hreadStart _ _))
  have hstopEq := Except.ok.inj (hreadStop'.symm.trans (readField_of_readNumber hreadStop _ _))
  have hrow : row table i = table[i] := by
    rw [row, List.getD_eq_getElem?_getD, List.getElem?_eq_getElem hi, Option.getD_some]
  calc row table i = ⟨table[i].start, table[i].stop⟩ := hrow
    _ = s := by rw [hstartEq, hstopEq]

end StageLog

end EnergyProfile
