import EnergyProfile.Proofs.Csv.Grammar

/-!
# What is written says what was to be written

Records go out one after another, each ended by a line feed. A field that holds a separating symbol is
quoted as a whole, and so is the only field of a record if it is empty, which else would leave an empty
line. A record without fields has no text.
-/

namespace EnergyProfile.Csv

set_option autoImplicit false

variable {σ : Type} [DecidableEq σ] [Alphabet σ]

theorem fieldText_writeField (field : List σ) : FieldText (writeField field) field := by
  unfold writeField
  split
  · simpa using FieldText.quoted field Bare.nil
  · rename_i hany
    have hplain (c : σ) (hc : c ∈ field) : ¬ Ends c ∧ c ≠ Alphabet.quote := by
      have := mt (List.any_eq_true.mpr ⟨c, hc, ·⟩) hany
      rwa [separates_iff, not_or] at this
    refine .bare ⟨fun c hc => (hplain c hc).1, fun hquote => ?_⟩
    exact (hplain _ (List.mem_of_mem_head? hquote)).2 rfl

theorem recordText_writeFields {fields : List (List σ)} (hne : fields ≠ []) :
    RecordText FieldText (writeFields fields) fields := by
  induction fields with
  | nil => exact absurd rfl hne
  | cons field rest ih =>
    cases rest with
    | nil => exact .last (fieldText_writeField field)
    | cons next rest =>
      exact .cons (fieldText_writeField field) (ih (List.cons_ne_nil next rest))

/-- Only one empty field leaves nothing between the ends of a line. -/
theorem eq_of_writeFields_eq_nil {fields : List (List σ)} (hne : fields ≠ [])
    (h : writeFields fields = []) : fields = [[]] := by
  match fields with
  | [] => exact absurd rfl hne
  | field :: next :: rest => simp [writeFields] at h
  | [field] =>
    have hfield : writeField field = [] := h
    unfold writeField at hfield
    split at hfield
    · simp [quote_eq] at hfield
    · rw [hfield]

theorem exists_writeRecord {fields : List (List σ)} (hne : fields ≠ []) :
    ∃ line, writeRecord fields = line ++ [Alphabet.lineFeed] ∧ line ≠ [] ∧
      RecordText FieldText line fields := by
  by_cases hempty : writeFields fields = []
  · refine ⟨quote [], by simp [writeRecord, hempty], by simp [quote_eq], ?_⟩
    rw [eq_of_writeFields_eq_nil hne hempty]
    exact .last (by simpa using FieldText.quoted ([] : List σ) Bare.nil)
  · exact ⟨writeFields fields, by simp [writeRecord, hempty], hempty, recordText_writeFields hne⟩

theorem tableText_write {table : List (List (List σ))} (hne : ∀ fields ∈ table, fields ≠ []) :
    TableText (write table) table := by
  induction table with
  | nil => exact .nil
  | cons fields rest ih =>
    obtain ⟨line, hwritten, hline, hrecord⟩ := exists_writeRecord (hne fields List.mem_cons_self)
    have hrest := ih fun others hothers => hne others (List.mem_cons_of_mem fields hothers)
    have hwrite : write (fields :: rest) = line ++ Alphabet.lineFeed :: write rest := by
      rw [write, List.flatMap_cons, hwritten, List.append_assoc]
      rfl
    rw [hwrite]
    exact .record hrecord hline (Or.inr rfl) hrest

theorem separates_or_head?_writeField {field rest : List σ} {c : σ}
    (hrest : ∀ c ∈ rest.head?, separates c = true) (hc : c ∈ (writeField field ++ rest).head?) :
    separates c = true ∨ field.head? = some c := by
  unfold writeField at hc
  split at hc
  · obtain rfl := Option.some.inj hc
    exact Or.inl ((separates_iff Alphabet.quote).mpr (Or.inr rfl))
  · cases field with
    | nil => exact Or.inl (hrest c hc)
    | cons first field => exact Or.inr hc

/-- The first symbol is that of the first field unless it separates. -/
theorem separates_or_head?_write {name : List σ} {fields : List (List σ)}
    {table : List (List (List σ))} {c : σ} (hc : c ∈ (write ((name :: fields) :: table)).head?) :
    separates c = true ∨ name.head? = some c := by
  have hcomma : separates (Alphabet.comma : σ) = true := (separates_iff _).mpr (Or.inl (Or.inl rfl))
  have hquote : separates (Alphabet.quote : σ) = true := (separates_iff _).mpr (Or.inr rfl)
  have hfeed : separates (Alphabet.lineFeed : σ) = true :=
    (separates_iff _).mpr (Or.inl (Or.inr (Or.inr rfl)))
  rw [write, List.flatMap_cons, writeRecord] at hc
  split at hc
  · obtain rfl := Option.some.inj hc
    exact Or.inl hquote
  · rw [List.append_assoc] at hc
    cases fields with
    | nil => exact separates_or_head?_writeField (by simpa using hfeed) hc
    | cons next fields =>
      rw [writeFields, List.append_assoc] at hc
      · exact separates_or_head?_writeField (by simpa using hcomma) hc
      · simp

/-- A record has another length than those before it. -/
structure UnequalLengths where
  expected : Nat
  found : Nat

/-- What has been written, and the length of its records once there is one. -/
structure Written (σ : Type) where
  text : List σ
  width? : Option Nat

/-- One record more, if it has the length of the others. -/
def Written.record (w : Written σ) (fields : List (List σ)) :
    Except UnequalLengths (Written σ) :=
  match w.width? with
  | none => .ok ⟨w.text ++ writeRecord fields, some fields.length⟩
  | some width =>
    if fields.length = width then .ok { w with text := w.text ++ writeRecord fields }
    else .error ⟨width, fields.length⟩

/-- Writes records that have to be of one length. -/
def writeEqual (table : List (List (List σ))) : Except UnequalLengths (List σ) :=
  (table.foldlM Written.record ⟨[], none⟩).map Written.text

theorem foldlM_record {table : List (List (List σ))} {width : Nat} (w : Written σ)
    (hwidth : w.width? = some width) (h : ∀ fields ∈ table, fields.length = width) :
    table.foldlM Written.record w = .ok { w with text := w.text ++ write table } := by
  induction table generalizing w with
  | nil => simp [write, pure, Except.pure]
  | cons fields rest ih =>
    have hfirst : w.record fields = .ok { w with text := w.text ++ writeRecord fields } := by
      rw [Written.record, hwidth]
      exact if_pos (h fields List.mem_cons_self)
    have hrest := ih { w with text := w.text ++ writeRecord fields } hwidth
      fun others hothers => h others (List.mem_cons_of_mem fields hothers)
    rw [List.foldlM_cons, hfirst]
    refine hrest.trans ?_
    simp [write]

theorem writeEqual_eq_ok {table : List (List (List σ))} {width : Nat}
    (h : ∀ fields ∈ table, fields.length = width) : writeEqual table = .ok (write table) := by
  cases table with
  | nil => rfl
  | cons fields rest =>
    have hrest := foldlM_record (⟨writeRecord fields, some fields.length⟩ : Written σ)
      (congrArg some (h fields List.mem_cons_self))
      fun others hothers => h others (List.mem_cons_of_mem fields hothers)
    have hfirst : Written.record ⟨[], none⟩ fields =
        .ok (⟨writeRecord fields, some fields.length⟩ : Written σ) := rfl
    rw [writeEqual, List.foldlM_cons, hfirst]
    simp only [bind, Except.bind, hrest]
    rfl

end EnergyProfile.Csv
