import EnergyProfile.Proofs.Csv.Encoding
import EnergyProfile.Proofs.Steps
import EnergyProfile.Proofs.Text.Trimming

/-!
# Reading the table in a file

A file holds the table that its text says. Where every record has as many fields as the first, each
field is read as text, trimmed or as it stands, and no other fault of a table can arise.
-/

namespace EnergyProfile

set_option autoImplicit false

/-- Steps that go alike on related elements, each of which has a number. -/
theorem mapM_zipIdx_congr {β β' γ ε : Type} {R : β → β' → Prop} {f : β × Nat → Except ε γ}
    {g : β' × Nat → Except ε γ} {xs : List β} {ys : List β'} (hrelated : List.Forall₂ R xs ys)
    (h : ∀ x y i, R x y → y ∈ ys → f (x, i) = g (y, i)) (start : Nat) :
    (xs.zipIdx start).mapM f = (ys.zipIdx start).mapM g := by
  induction hrelated generalizing start with
  | nil => rfl
  | @cons x y xs ys hxy _ ih =>
    have hrest := ih (fun x' y' i hxy' hy' => h x' y' i hxy' (List.mem_cons_of_mem y hy')) (start + 1)
    rw [List.zipIdx_cons, List.zipIdx_cons, List.mapM_cons, List.mapM_cons, hrest,
      h x y start hxy List.mem_cons_self]

namespace Csv

open Text

/-- A text holds a table: its records, field by field as they stand. -/
def Holds (text : String) (table : List (List String)) : Prop :=
  TableText (withoutMark text.toList) (table.map fun fields => fields.map String.toList)

theorem existsUnique_holds (text : String) : ∃! table, Holds text table := by
  obtain ⟨table, htable⟩ := exists_tableText (withoutMark text.toList)
  have hchars : (table.map fun fields => fields.map String.ofList).map
      (fun fields => fields.map String.toList) = table := by
    simp [Function.comp_def]
  refine ⟨table.map fun fields => fields.map String.ofList, ?_, ?_⟩
  · simp only [Holds, hchars]
    exact htable
  · intro other hother
    have hinjective : Function.Injective fun fields : List String => fields.map String.toList :=
      List.map_injective_iff.mpr fun a b => String.toList_inj.mp
    apply List.map_injective_iff.mpr hinjective
    rw [hchars]
    exact hother.unique htable

/-- A record has the bytes of some fields. -/
structure Record.Has (record : Record UInt8) (fields : List String) : Prop where
  fields_eq : record.fields = fields.map fun f => utf8 f.toList

/-- The records of a file have the fields of the table that its text holds. -/
theorem records_of_holds {text : String} {table : List (List String)} (h : Holds text table) :
    List.Forall₂ Record.Has (recordsOfBytes text.toUTF8.toList) table := by
  have hfields := fields_recordsOfBytes h
  rw [← toList_toUTF8, List.map_map, ← List.forall₂_eq_eq_eq, List.forall₂_map_left_iff,
    List.forall₂_map_right_iff] at hfields
  refine hfields.imp fun record fields hrecord => ?_
  constructor
  rw [hrecord, Function.comp, List.map_map]
  rfl

theorem fieldsText_utf8 (number index : Nat) (record : Record UInt8) (fields : List (List Char)) :
    fieldsText number record index (fields.map utf8) =
      .ok (fields.map fun f => trim (String.ofList f)) := by
  induction fields generalizing index with
  | nil => rfl
  | cons field rest ih =>
    rw [List.map_cons, fieldsText, ofBytes_utf8]
    simp only [ih]
    rfl

theorem rowFields_eq_ok {width number : Nat} {record : Record UInt8} {fields : List String}
    (hrecord : record.Has fields) (hwidth : fields.length = width) :
    rowFields width number record = .ok (fields.map trim) := by
  have htrimmed : record.fields.map (trimBoth isBlankByte) =
      (fields.map fun f => trimBoth isBlankAscii f.toList).map utf8 := by
    rw [hrecord.fields_eq, List.map_map, List.map_map]
    exact List.map_congr_left fun f _ => trimBoth_utf8 f.toList
  rw [rowFields, if_pos (by rw [hrecord.fields_eq, List.length_map, hwidth]), htrimmed, fieldsText_utf8,
    List.map_map]
  refine congrArg Except.ok (List.map_congr_left fun f _ => ?_)
  rw [Function.comp, trim_trimBoth, String.ofList_toList]

/-- The names of the columns of a table. -/
def names (table : List (List String)) : List String := (table.headD []).map trim

theorem readRows_eq {β : Type} {width : Nat} {read : Nat → List String → Except Error β}
    {records : List (Record UInt8)} {rows : List (List String)}
    (hrecords : List.Forall₂ Record.Has records rows) (hwidth : ∀ row ∈ rows, row.length = width) :
    readRows width read records =
      (rows.zipIdx 1).mapM fun (row, number) => read number (row.map trim) := by
  refine mapM_zipIdx_congr hrecords ?_ 1
  intro record row number hrecord hrow
  simp only [rowFields_eq_ok hrecord (hwidth row hrow)]

theorem header_eq_ok {text : String} {table : List (List String)} (h : Holds text table) :
    ∃ records, header text.toUTF8 = .ok (names table, records) ∧
      List.Forall₂ Record.Has records table.tail := by
  have hrecords := records_of_holds h
  unfold header
  generalize recordsOfBytes text.toUTF8.toList = all at hrecords
  cases hrecords with
  | nil => exact ⟨[], rfl, .nil⟩
  | @cons record row records rows hrecord hrest =>
    have hfields : record.fields = (row.map String.toList).map utf8 := by
      rw [hrecord.fields_eq, List.map_map]
      rfl
    have hnames : (row.map String.toList).map (fun f => trim (String.ofList f)) = row.map trim := by
      simp [Function.comp_def]
    refine ⟨records, ?_, hrest⟩
    simp only [hfields, fieldsText_utf8, hnames]
    rfl

def plainFields (number : Nat) (record : Record UInt8) :
    (index : Nat) → List (List UInt8) → Except CsvFault (List String)
  | _, [] => .ok []
  | index, field :: rest =>
    match ofBytes ⟨field.toArray⟩ with
    | .error position => .error (.notText number record.line record.offset index position)
    | .ok text => do return text :: (← plainFields number record (index + 1) rest)

/-- The table in a file whose records are all of one length, with no field trimmed. -/
def decode (bytes : ByteArray) : Except CsvFault (List (List String)) :=
  match recordsOfBytes bytes.toList with
  | [] => .ok []
  | first :: rest => ((first :: rest).zipIdx 0).mapM fun (record, number) =>
      if record.fields.length = first.fields.length then plainFields number record 0 record.fields
      else .error (.unequalLengths number record.line record.offset first.fields.length
        record.fields.length)

theorem plainFields_utf8 (number index : Nat) (record : Record UInt8) (fields : List String) :
    plainFields number record index (fields.map fun f => utf8 f.toList) = .ok fields := by
  induction fields generalizing index with
  | nil => rfl
  | cons field rest ih =>
    rw [List.map_cons, plainFields, ofBytes_utf8, String.ofList_toList]
    simp only [ih]
    rfl

theorem decode_eq_ok {text : String} {table : List (List String)} (h : Holds text table)
    {width : Nat} (hwidth : ∀ fields ∈ table, fields.length = width) :
    decode text.toUTF8 = .ok table := by
  have hrecords := records_of_holds h
  unfold decode
  generalize recordsOfBytes text.toUTF8.toList = all at hrecords
  cases all with
  | nil => rw [List.forall₂_nil_left_iff.mp hrecords]
  | cons first rest =>
    have hlength {record : Record UInt8} {fields : List String} (hrecord : record.Has fields)
        (hfields : fields ∈ table) : record.fields.length = width := by
      rw [hrecord.fields_eq, List.length_map, hwidth fields hfields]
    obtain ⟨header, others, hheader, _, rfl⟩ := List.forall₂_cons_left_iff.mp hrecords
    have hfirst := hlength hheader List.mem_cons_self
    refine (mapM_zipIdx_congr (g := fun entry => pure entry.1) hrecords ?_ 0).trans ?_
    · intro record fields number hrecord hfields
      simp only [hfirst, hlength hrecord hfields, if_true]
      rw [hrecord.fields_eq, plainFields_utf8]
      rfl
    · rw [List.mapM_pure, List.zipIdx_map_fst]
      rfl

end Csv

end EnergyProfile
