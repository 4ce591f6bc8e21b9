import EnergyProfile.Proofs.Csv.Grammar

/-!
# Splitting a text into the table that it says

The splitting goes through a text symbol by symbol. Part by part of the grammar, it has read just what
the part says. Where records begin in the text plays no role for their fields.
-/

namespace EnergyProfile.Csv

set_option autoImplicit false

/-- No record has begun. -/
def Phase.Idle (p : Phase) : Prop := p = .outside ∨ p = .returned

/-- A field has begun, and the next symbol may end it. -/
def Phase.Closed (p : Phase) : Prop := p = .fieldStart ∨ p = .plain ∨ p = .quoteSeen

namespace Splitting

section

variable {σ : Type}

/-- What has been read so far, in the order of the text. -/
structure At (s : Splitting σ) (phase : Phase) (field : List σ) (fields : List (List σ))
    (table : List (List (List σ))) : Prop where
  phase : s.phase = phase
  field : s.field.reverse = field
  fields : s.fields.reverse = fields
  table : (s.records.map Record.fields).reverse = table

theorem At.initial (offset : Nat) : At (initial offset : Splitting σ) .outside [] [] [] :=
  ⟨rfl, rfl, rfl, rfl⟩

variable {s : Splitting σ} {phase : Phase} {field : List σ} {fields : List (List σ)}
  {table : List (List (List σ))}

theorem At.enter (h : At s phase field fields table) (next : Phase) :
    At { s with phase := next } next field fields table :=
  ⟨rfl, h.field, h.fields, h.table⟩

theorem At.keep (h : At s phase field fields table) (c : σ) (next : Phase) :
    At (s.keep c next) next (field ++ [c]) fields table := by
  refine ⟨rfl, ?_, h.fields, h.table⟩
  rw [← h.field]
  exact List.reverse_cons

theorem At.endField (h : At s phase field fields table) (next : Phase) :
    At (s.endField next) next [] (fields ++ [field]) table := by
  refine ⟨rfl, rfl, ?_, h.table⟩
  rw [← h.fields, ← h.field]
  exact List.reverse_cons

theorem At.endRecord (h : At s phase field fields table) (next : Phase) :
    At (s.endRecord next) next [] [] (table ++ [fields ++ [field]]) := by
  refine ⟨rfl, rfl, rfl, ?_⟩
  rw [← h.table, ← (h.endField next).fields]
  exact List.reverse_cons

theorem fields_finish_of_idle (hphase : Phase.Idle phase) (h : At s phase [] [] table) :
    s.finish.map Record.fields = table := by
  have hrecords : s.records.reverse.map Record.fields = table := by
    rw [List.map_reverse, h.table]
  rw [finish, h.phase]
  rcases hphase with rfl | rfl
  · exact hrecords
  · exact hrecords

theorem fields_finish_of_not_idle (hphase : ¬ Phase.Idle phase)
    (h : At s phase field fields table) :
    s.finish.map Record.fields = table ++ [fields ++ [field]] := by
  have hrecords : (s.endRecord .outside).records.reverse.map Record.fields =
      table ++ [fields ++ [field]] := by
    rw [List.map_reverse, (h.endRecord .outside).table]
  rw [finish, h.phase]
  cases phase with
  | outside => exact absurd (Or.inl rfl) hphase
  | returned => exact absurd (Or.inr rfl) hphase
  | _ => exact hrecords

end

variable {σ : Type} [DecidableEq σ] [Alphabet σ] {s : Splitting σ} {phase : Phase} {field : List σ}
  {fields : List (List σ)} {table : List (List (List σ))}

/-- A symbol counted, but not read yet. -/
def counted (s : Splitting σ) (c : σ) : Splitting σ :=
  { s with line := if c = Alphabet.lineFeed then s.line + 1 else s.line, offset := s.offset + 1 }

theorem push_eq (s : Splitting σ) (c : σ) : s.push c = (s.counted c).classify c := rfl

theorem At.counted (h : At s phase field fields table) (c : σ) :
    At (s.counted c) phase field fields table :=
  ⟨h.phase, h.field, h.fields, h.table⟩

theorem At.unquoted_of_not_ends (h : At s phase field fields table) {c : σ} (hc : ¬ Ends c) :
    At (s.unquoted c) .plain (field ++ [c]) fields table := by
  simp only [Ends, IsBreak, not_or] at hc
  rw [Splitting.unquoted, if_neg hc.1, if_neg hc.2.1, if_neg hc.2.2]
  exact h.keep c .plain

theorem At.unquoted_comma (h : At s phase field fields table) :
    At (s.unquoted Alphabet.comma) .fieldStart [] (fields ++ [field]) table := by
  rw [Splitting.unquoted, if_pos rfl]
  exact h.endField .fieldStart

theorem At.unquoted_of_isBreak [LawfulAlphabet σ] (h : At s phase field fields table) {c : σ}
    (hc : IsBreak c) : ∃ next, Phase.Idle next ∧
      At (s.unquoted c) next [] [] (table ++ [fields ++ [field]]) := by
  have hcomma : c ≠ Alphabet.comma := by
    rintro rfl
    exact not_isBreak_comma hc
  rw [Splitting.unquoted, if_neg hcomma]
  by_cases hreturn : c = Alphabet.carriageReturn
  · rw [if_pos hreturn]
    exact ⟨_, Or.inr rfl, h.endRecord .returned⟩
  · rw [if_neg hreturn, if_pos (hc.resolve_left hreturn)]
    exact ⟨_, Or.inl rfl, h.endRecord .outside⟩

/-- Outside quotes only a quote at the start of a field, or right behind a closing one, is special. -/
theorem push_of_closed (hphase : Phase.Closed s.phase) {c : σ}
    (hc : c = Alphabet.quote → s.phase = .plain) : s.push c = (s.counted c).unquoted c := by
  have hsame : (s.counted c).phase = s.phase := rfl
  rw [push_eq, classify, hsame]
  rcases hphase with hstart | hplain | hseen
  · have hquote : c ≠ Alphabet.quote := fun hq => by simp [hstart] at hc; exact hc hq
    rw [hstart]
    exact if_neg hquote
  · rw [hplain]
  · have hquote : c ≠ Alphabet.quote := fun hq => by simp [hseen] at hc; exact hc hq
    rw [hseen]
    exact if_neg hquote

theorem At.push_opening (h : At s .fieldStart field fields table) :
    At (s.push Alphabet.quote) .quoted field fields table := by
  rw [push_eq, classify, (h.counted Alphabet.quote).phase]
  simp only [opening, if_pos]
  exact (h.counted Alphabet.quote).enter .quoted

theorem At.push_quoted (h : At s .quoted field fields table) {c : σ} (hc : c ≠ Alphabet.quote) :
    At (s.push c) .quoted (field ++ [c]) fields table := by
  rw [push_eq, classify, (h.counted c).phase]
  simp only [if_neg hc]
  exact (h.counted c).keep c .quoted

theorem At.push_closing (h : At s .quoted field fields table) :
    At (s.push Alphabet.quote) .quoteSeen field fields table := by
  rw [push_eq, classify, (h.counted Alphabet.quote).phase]
  simp only [if_pos]
  exact (h.counted Alphabet.quote).enter .quoteSeen

theorem At.push_second (h : At s .quoteSeen field fields table) :
    At (s.push Alphabet.quote) .quoted (field ++ [Alphabet.quote]) fields table := by
  rw [push_eq, classify, (h.counted Alphabet.quote).phase]
  simp only [if_pos]
  exact (h.counted Alphabet.quote).keep Alphabet.quote .quoted

theorem At.push_blank (h : At s phase [] [] table) (hphase : Phase.Idle phase) {c : σ}
    (hc : IsBreak c) : At (s.push c) .outside [] [] table := by
  have henter := (h.counted c).enter .outside
  have hfirst : (s.counted c).first c = { s.counted c with phase := .outside } := if_pos hc
  rw [push_eq, classify, (h.counted c).phase]
  rcases hphase with rfl | rfl
  · simp only [hfirst]
    exact henter
  · simp only [hfirst, ite_self]
    exact henter

theorem push_of_idle (hphase : Phase.Idle s.phase) {c : σ} (hc : ¬ IsBreak c) :
    s.push c = { s with phase := .fieldStart }.push c := by
  have hfirst : (s.counted c).first c = { s with phase := .fieldStart }.push c := if_neg hc
  have hsame : (s.counted c).phase = s.phase := rfl
  rw [push_eq, classify, hsame]
  rcases hphase with hidle | hidle
  · simp only [hidle, hfirst]
  · have hfeed : c ≠ Alphabet.lineFeed := fun h => hc (Or.inr h)
    simp only [hidle, if_neg hfeed, hfirst]

theorem At.plain {text : List σ} (hplain : ∀ c ∈ text, ¬ Ends c)
    (h : At s .plain field fields table) :
    At (text.foldl push s) .plain (field ++ text) fields table := by
  induction text generalizing s field with
  | nil => simpa using h
  | cons c text ih =>
    have hc := hplain c List.mem_cons_self
    have hnext : At (s.push c) .plain (field ++ [c]) fields table := by
      rw [push_of_closed (Or.inr (Or.inl h.phase)) fun _ => h.phase]
      exact (h.counted c).unquoted_of_not_ends hc
    rw [List.foldl_cons, List.append_cons]
    exact ih (fun d hd => hplain d (List.mem_cons_of_mem c hd)) hnext

theorem At.bare {text : List σ} (hbare : Bare text) (hphase : Phase.Closed phase)
    (h : At s phase field fields table) :
    ∃ next, Phase.Closed next ∧ At (text.foldl push s) next (field ++ text) fields table := by
  cases text with
  | nil => exact ⟨phase, hphase, by simpa using h⟩
  | cons c text =>
    have hquote : c ≠ Alphabet.quote := fun hq => hbare.unquoted (congrArg some hq)
    have hnext : At (s.push c) .plain (field ++ [c]) fields table := by
      rw [push_of_closed (h.phase ▸ hphase) fun hq => absurd hq hquote]
      exact (h.counted c).unquoted_of_not_ends (hbare.plain c List.mem_cons_self)
    rw [List.foldl_cons, List.append_cons]
    exact ⟨.plain, Or.inr (Or.inl rfl),
      hnext.plain fun d hd => hbare.plain d (List.mem_cons_of_mem c hd)⟩

theorem At.doubled (inner : List σ) (h : At s .quoted field fields table) :
    At ((doubled inner).foldl push s) .quoted (field ++ inner) fields table := by
  induction inner generalizing s field with
  | nil => simpa [Csv.doubled] using h
  | cons c inner ih =>
    rw [doubled_cons, List.foldl_append, List.append_cons]
    by_cases hc : c = Alphabet.quote
    · obtain rfl := hc
      rw [if_pos rfl]
      exact ih h.push_closing.push_second
    · rw [if_neg hc]
      exact ih (h.push_quoted hc)

theorem At.fieldText {text said : List σ} (hsaid : FieldText text said)
    (h : At s .fieldStart [] fields table) :
    ∃ next, Phase.Closed next ∧ At (text.foldl push s) next said fields table := by
  cases hsaid with
  | bare hbare => exact h.bare hbare (Or.inl rfl)
  | @quoted inner rest hbare =>
    rw [quote_eq, List.foldl_append, List.foldl_append]
    have hclosed : At ([Alphabet.quote].foldl push (_)) .quoteSeen inner fields table :=
      (h.push_opening.doubled inner).push_closing
    exact hclosed.bare hbare (Or.inr (Or.inr rfl))

theorem At.lastFieldText {text said : List σ} (hsaid : LastFieldText text said)
    (h : At s .fieldStart [] fields table) :
    ∃ next, ¬ Phase.Idle next ∧ At (text.foldl push s) next said fields table := by
  cases hsaid with
  | closed hsaid =>
    obtain ⟨next, hnext, hat⟩ := h.fieldText hsaid
    refine ⟨next, ?_, hat⟩
    rcases hnext with rfl | rfl | rfl <;> simp [Phase.Idle]
  | unclosed inner => exact ⟨.quoted, by simp [Phase.Idle], h.push_opening.doubled _⟩

/-- A record is read up to its last field, whose forms may be any that are read in some phases. -/
theorem At.recordText [LawfulAlphabet σ] {Last : List σ → List σ → Prop} {Ended : Phase → Prop}
    (hlast : ∀ {s : Splitting σ} {fields : List (List σ)} {text said : List σ}, Last text said →
      At s .fieldStart [] fields table →
      ∃ next, Ended next ∧ At (text.foldl push s) next said fields table)
    {text : List σ} {said : List (List σ)} (hsaid : RecordText Last text said)
    (h : At s .fieldStart [] fields table) :
    ∃ next field before, Ended next ∧ At (text.foldl push s) next field before table ∧
      before ++ [field] = fields ++ said := by
  induction hsaid generalizing s fields with
  | @last text field hfield =>
    obtain ⟨next, hended, hat⟩ := hlast hfield h
    exact ⟨next, field, fields, hended, hat, rfl⟩
  | @cons text field rest others hfield _ ih =>
    obtain ⟨next, hclosed, hat⟩ := h.fieldText hfield
    have hcomma : At ((text.foldl push s).push Alphabet.comma) .fieldStart []
        (fields ++ [field]) table := by
      rw [push_of_closed (hat.phase ▸ hclosed) fun hq => absurd (Or.inl hq.symm) not_ends_quote]
      exact (hat.counted _).unquoted_comma
    rw [List.foldl_append, List.foldl_cons]
    obtain ⟨next, field, before, hended, hat, hbefore⟩ := ih hcomma
    exact ⟨next, field, before, hended, hat, by simpa using hbefore⟩

theorem At.recordText_of_idle [LawfulAlphabet σ] {Last : List σ → List σ → Prop}
    {Ended : Phase → Prop}
    (hhead : ∀ {text said : List σ}, Last text said → ∀ c ∈ text.head?, ¬ IsBreak c)
    (hlast : ∀ {s : Splitting σ} {fields : List (List σ)} {text said : List σ}, Last text said →
      At s .fieldStart [] fields table →
      ∃ next, Ended next ∧ At (text.foldl push s) next said fields table)
    {text : List σ} {said : List (List σ)} (hsaid : RecordText Last text said) (hne : text ≠ [])
    (hphase : Phase.Idle phase) (h : At s phase [] [] table) :
    ∃ next field before, Ended next ∧ At (text.foldl push s) next field before table ∧
      before ++ [field] = said := by
  have hstart : text.foldl push s = text.foldl push { s with phase := .fieldStart } := by
    cases text with
    | nil => exact absurd rfl hne
    | cons c text =>
      have hc := hsaid.head_not_break hhead c rfl
      rw [List.foldl_cons, List.foldl_cons, push_of_idle (h.phase ▸ hphase) hc]
  rw [hstart]
  exact (h.enter .fieldStart).recordText hlast hsaid

/-- Behind a table that has been read, a text adds the table that it says. -/
theorem At.tableText [LawfulAlphabet σ] {text : List σ} {said : List (List (List σ))}
    (hsaid : TableText text said) (hphase : Phase.Idle phase) (h : At s phase [] [] table) :
    (text.foldl push s).finish.map Record.fields = table ++ said := by
  induction hsaid generalizing s phase table with
  | nil =>
    rw [List.append_nil]
    exact fields_finish_of_idle hphase h
  | blank hc _ ih => exact ih (Or.inl rfl) (h.push_blank hphase hc)
  | @record text others c rest said hrecord hne hc _ ih =>
    obtain ⟨next, field, before, hclosed, hat, hbefore⟩ :=
      h.recordText_of_idle FieldText.head_not_break (fun hl hs => hs.fieldText hl) hrecord hne hphase
    have hquote : c ≠ Alphabet.quote := by
      rintro rfl
      exact not_ends_quote (Or.inr hc)
    obtain ⟨idle, hidle, hrest⟩ := (hat.counted c).unquoted_of_isBreak hc
    rw [← push_of_closed (hat.phase ▸ hclosed) fun hq => absurd hq hquote, hbefore] at hrest
    rw [List.foldl_append, List.foldl_cons, List.append_cons]
    exact ih hidle hrest
  | last hrecord hne =>
    obtain ⟨next, field, before, hended, hat, hbefore⟩ :=
      h.recordText_of_idle LastFieldText.head_not_break (fun hl hs => hs.lastFieldText hl) hrecord
        hne hphase
    rw [fields_finish_of_not_idle hended hat, hbefore]

end Splitting

variable {σ : Type} [DecidableEq σ] [Alphabet σ] [LawfulAlphabet σ]

/-- A text says the table of the fields that it is split into, and no other. -/
theorem tableText_iff (offset : Nat) {text : List σ} {table : List (List (List σ))} :
    TableText text table ↔ (records offset text).map Record.fields = table := by
  have hread {said : List (List (List σ))} (h : TableText text said) :
      (records offset text).map Record.fields = said :=
    (Splitting.At.initial offset).tableText h (Or.inl rfl)
  constructor
  · exact hread
  · rintro rfl
    obtain ⟨said, hsaid⟩ := exists_tableText text
    rw [hread hsaid]
    exact hsaid

theorem TableText.unique {text : List σ} {table table' : List (List (List σ))}
    (h : TableText text table) (h' : TableText text table') : table = table' :=
  ((tableText_iff 0).mp h).symm.trans ((tableText_iff 0).mp h')

end EnergyProfile.Csv
