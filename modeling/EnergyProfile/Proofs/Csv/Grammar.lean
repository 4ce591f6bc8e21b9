import EnergyProfile.Csv.Writing
import Mathlib.Data.List.TakeWhile
import Mathlib.Tactic.Tauto

/-!
# The grammar of tables

What a text says as a table of records, told by the parts of the text and not by a machine that reads
it. A field stands bare, or between quotes with every quote inside written twice; behind a closing
quote it goes on bare. White space is part of a field, so a quote that follows a blank is an ordinary
symbol. Empty lines say nothing. At the end of the text a record needs no line break, and a quoted
field no closing quote.

Every text says exactly one table, and the splitting of a text into records finds it.
-/

namespace EnergyProfile.Csv

set_option autoImplicit false

/-- The four symbols that separate are four. -/
class LawfulAlphabet (σ : Type) [Alphabet σ] : Prop where
  nodup : [Alphabet.comma, Alphabet.quote, Alphabet.carriageReturn,
    (Alphabet.lineFeed : σ)].Nodup

instance : LawfulAlphabet Char := ⟨by decide⟩

instance : LawfulAlphabet UInt8 := ⟨by decide⟩

section

variable {σ : Type} [Alphabet σ]

def IsBreak (c : σ) : Prop := c = Alphabet.carriageReturn ∨ c = Alphabet.lineFeed

/-- A symbol that ends a bare field. -/
def Ends (c : σ) : Prop := c = Alphabet.comma ∨ IsBreak c

/-- Symbols that stand for themselves: no quote comes first, and none of them ends a field. -/
structure Bare (text : List σ) : Prop where
  plain : ∀ c ∈ text, ¬ Ends c
  unquoted : text.head? ≠ some Alphabet.quote

theorem Bare.nil : Bare ([] : List σ) := ⟨by simp, by simp⟩

theorem not_ends_quote [LawfulAlphabet σ] : ¬ Ends (Alphabet.quote : σ) := by
  have h := LawfulAlphabet.nodup (σ := σ)
  simp only [List.nodup_cons, List.mem_cons, List.not_mem_nil, or_false, not_or] at h
  rintro (hcomma | hreturn | hfeed)
  · exact h.1.1 hcomma.symm
  · exact h.2.1.1 hreturn
  · exact h.2.1.2 hfeed

theorem not_isBreak_comma [LawfulAlphabet σ] : ¬ IsBreak (Alphabet.comma : σ) := by
  have h := LawfulAlphabet.nodup (σ := σ)
  simp only [List.nodup_cons, List.mem_cons, List.not_mem_nil, or_false, not_or] at h
  rintro (hreturn | hfeed)
  · exact h.1.2.1 hreturn
  · exact h.1.2.2 hfeed

end

section

variable {σ : Type} [DecidableEq σ] [Alphabet σ]

instance (c : σ) : Decidable (IsBreak c) := inferInstanceAs (Decidable (_ ∨ _))

instance (c : σ) : Decidable (Ends c) := inferInstanceAs (Decidable (_ ∨ _))

/-- Every quote written twice. -/
def doubled (field : List σ) : List σ :=
  field.flatMap fun c => if c = Alphabet.quote then [c, c] else [c]

/-- A text and the field that it says. -/
inductive FieldText : List σ → List σ → Prop where
  | bare {text : List σ} (h : Bare text) : FieldText text text
  | quoted (inner : List σ) {rest : List σ} (h : Bare rest) :
      FieldText (quote inner ++ rest) (inner ++ rest)

/-- At the end of everything a closing quote may be missing. -/
inductive LastFieldText : List σ → List σ → Prop where
  | closed {text field : List σ} (h : FieldText text field) : LastFieldText text field
  | unclosed (inner : List σ) : LastFieldText (Alphabet.quote :: doubled inner) inner

/-- A text and the fields that it says, of which the last may have a form of its own. -/
inductive RecordText (Last : List σ → List σ → Prop) : List σ → List (List σ) → Prop where
  | last {text field : List σ} (h : Last text field) : RecordText Last text [field]
  | cons {text field rest : List σ} {fields : List (List σ)} (h : FieldText text field)
      (hrest : RecordText Last rest fields) :
      RecordText Last (text ++ Alphabet.comma :: rest) (field :: fields)

/-- A text and the table that it says. -/
inductive TableText : List σ → List (List (List σ)) → Prop where
  | nil : TableText [] []
  | blank {c : σ} {rest : List σ} {table : List (List (List σ))} (hc : IsBreak c)
      (hrest : TableText rest table) : TableText (c :: rest) table
  | record {text : List σ} {fields : List (List σ)} {c : σ} {rest : List σ}
      {table : List (List (List σ))} (h : RecordText FieldText text fields) (hne : text ≠ [])
      (hc : IsBreak c) (hrest : TableText rest table) :
      TableText (text ++ c :: rest) (fields :: table)
  | last {text : List σ} {fields : List (List σ)} (h : RecordText LastFieldText text fields)
      (hne : text ≠ []) : TableText text [fields]

theorem quote_eq (field : List σ) :
    quote field = Alphabet.quote :: doubled field ++ [Alphabet.quote] := rfl

theorem doubled_cons (c : σ) (field : List σ) :
    doubled (c :: field) = (if c = Alphabet.quote then [c, c] else [c]) ++ doubled field :=
  List.flatMap_cons

theorem doubled_of_not_mem {field : List σ} (h : Alphabet.quote ∉ field) :
    doubled field = field := by
  induction field with
  | nil => rfl
  | cons c field ih =>
    rw [List.mem_cons, not_or] at h
    rw [doubled_cons, if_neg (Ne.symm h.1), ih h.2]
    rfl

theorem separates_iff (c : σ) : separates c = true ↔ Ends c ∨ c = Alphabet.quote := by
  simp only [separates, Ends, IsBreak, decide_eq_true_eq]
  tauto

theorem FieldText.head_not_break [LawfulAlphabet σ] {text field : List σ}
    (h : FieldText text field) : ∀ c ∈ text.head?, ¬ IsBreak c := by
  intro c hc hbreak
  cases h with
  | bare h => exact h.plain c (List.mem_of_mem_head? hc) (Or.inr hbreak)
  | quoted inner h =>
    obtain rfl := Option.some.inj hc
    exact not_ends_quote (Or.inr hbreak)

theorem LastFieldText.head_not_break [LawfulAlphabet σ] {text field : List σ}
    (h : LastFieldText text field) : ∀ c ∈ text.head?, ¬ IsBreak c := by
  intro c hc hbreak
  cases h with
  | closed h => exact h.head_not_break c hc hbreak
  | unclosed inner =>
    obtain rfl := Option.some.inj hc
    exact not_ends_quote (Or.inr hbreak)

theorem RecordText.head_not_break [LawfulAlphabet σ] {Last : List σ → List σ → Prop}
    (hlast : ∀ {text field : List σ}, Last text field → ∀ c ∈ text.head?, ¬ IsBreak c)
    {text : List σ} {fields : List (List σ)} (h : RecordText Last text fields) :
    ∀ c ∈ text.head?, ¬ IsBreak c := by
  intro c hc
  cases h with
  | last h => exact hlast h c hc
  | @cons text field rest fields h hrest =>
    cases text with
    | nil =>
      obtain rfl := Option.some.inj hc
      exact not_isBreak_comma
    | cons d text => exact h.head_not_break c hc

theorem RecordText.imp {Last Last' : List σ → List σ → Prop}
    (hlast : ∀ {text field : List σ}, Last text field → Last' text field) {text : List σ}
    {fields : List (List σ)} (h : RecordText Last text fields) : RecordText Last' text fields := by
  induction h with
  | last h => exact .last (hlast h)
  | cons h _ ih => exact .cons h ih

/-- What stands behind an opening quote: up to the closing one, or up to the end. -/
def QuotedPart (text : List σ) : Prop :=
  (∃ inner rest, text = doubled inner ++ Alphabet.quote :: rest ∧
    rest.head? ≠ some Alphabet.quote) ∨ ∃ inner, text = doubled inner

theorem QuotedPart.cons {later : List σ} (h : QuotedPart later) (c : σ) :
    QuotedPart ((if c = Alphabet.quote then [c, c] else [c]) ++ later) := by
  rcases h with ⟨inner, rest, rfl, hrest⟩ | ⟨inner, rfl⟩
  · refine Or.inl ⟨c :: inner, rest, ?_, hrest⟩
    rw [doubled_cons, List.append_assoc]
  · exact Or.inr ⟨c :: inner, (doubled_cons c inner).symm⟩

theorem quotedPart : (text : List σ) → QuotedPart text
  | [] => Or.inr ⟨[], rfl⟩
  | [c] => by
    by_cases hc : c = Alphabet.quote
    · exact Or.inl ⟨[], [], by simp [doubled, hc], by simp⟩
    · simpa [hc] using (quotedPart []).cons c
  | c :: d :: later => by
    by_cases hc : c = Alphabet.quote
    · by_cases hd : d = Alphabet.quote
      · simpa [hc, hd] using (quotedPart later).cons c
      · exact Or.inl ⟨[], d :: later, by simp [doubled, hc], by simpa using hd⟩
    · simpa [hc] using (quotedPart (d :: later)).cons c

theorem exists_bare (text : List σ) (h : text.head? ≠ some Alphabet.quote) :
    ∃ first rest, text = first ++ rest ∧ Bare first ∧ ∀ c ∈ rest.head?, Ends c := by
  refine ⟨text.takeWhile fun c => ¬ Ends c, text.dropWhile fun c => ¬ Ends c,
    List.takeWhile_append_dropWhile.symm, ⟨?_, ?_⟩, ?_⟩
  · intro c hc
    simpa using List.mem_takeWhile_imp hc
  · cases text with
    | nil => simp
    | cons c text => by_cases hc : Ends c <;> simp_all
  · intro c hc
    have hfirst := List.head?_dropWhile_not (fun c => decide (¬ Ends c)) text
    rw [Option.mem_def.mp hc] at hfirst
    simpa using hfirst

/-- A text begins with a field, which ends where a comma or a line break does or with the text. -/
theorem exists_fieldText (text : List σ) :
    (∃ first field rest, text = first ++ rest ∧ FieldText first field ∧
      ∀ c ∈ rest.head?, Ends c) ∨ ∃ field, LastFieldText text field := by
  by_cases hquote : text.head? = some Alphabet.quote
  · obtain ⟨behind, rfl⟩ : ∃ behind, text = Alphabet.quote :: behind := by
      cases text with
      | nil => cases hquote
      | cons c behind => exact ⟨behind, by rw [Option.some.inj hquote]⟩
    rcases quotedPart behind with ⟨inner, rest, rfl, hrest⟩ | ⟨inner, rfl⟩
    · obtain ⟨first, rest, rfl, hfirst, hends⟩ := exists_bare rest hrest
      exact Or.inl ⟨quote inner ++ first, inner ++ first, rest, by simp [quote_eq],
        .quoted inner hfirst, hends⟩
    · exact Or.inr ⟨inner, .unclosed inner⟩
  · obtain ⟨first, rest, rfl, hfirst, hends⟩ := exists_bare text hquote
    exact Or.inl ⟨first, first, rest, rfl, .bare hfirst, hends⟩

/-- A text begins with a record, which ends where a line does or with the text. -/
theorem exists_recordText (text : List σ) :
    (∃ first fields rest, text = first ++ rest ∧ RecordText FieldText first fields ∧
      ∀ c ∈ rest.head?, IsBreak c) ∨ ∃ fields, RecordText LastFieldText text fields := by
  induction hlength : text.length using Nat.strongRecOn generalizing text with
  | ind n ih =>
    rcases exists_fieldText text with ⟨first, field, rest, rfl, hfirst, hends⟩ | ⟨field, hfield⟩
    · cases rest with
      | nil => exact Or.inl ⟨first, [field], [], rfl, .last hfirst, by simp⟩
      | cons c rest =>
        rcases hends c rfl with rfl | hbreak
        · have hlt : rest.length < n := by
            rw [← hlength, List.length_append, List.length_cons]
            omega
          rcases ih _ hlt rest rfl with ⟨others, fields, rest, rfl, hothers, hbreak⟩ | ⟨fields, h⟩
          · refine Or.inl ⟨_, _, rest, ?_, .cons hfirst hothers, hbreak⟩
            simp
          · exact Or.inr ⟨_, .cons hfirst h⟩
        · refine Or.inl ⟨first, [field], c :: rest, rfl, .last hfirst, ?_⟩
          intro d hd
          rw [← Option.some.inj hd]
          exact hbreak
    · exact Or.inr ⟨[field], .last hfield⟩

theorem RecordText.exists_tableText {first : List σ} {fields : List (List σ)} {rest : List σ}
    (h : RecordText FieldText first fields) (hne : first ≠ []) (hbreak : ∀ c ∈ rest.head?, IsBreak c)
    (hrest : ∃ table, TableText rest.tail table) : ∃ table, TableText (first ++ rest) table := by
  cases rest with
  | nil =>
    rw [List.append_nil]
    exact ⟨[fields], .last (h.imp .closed) hne⟩
  | cons c rest =>
    obtain ⟨table, htable⟩ := hrest
    exact ⟨fields :: table, .record h hne (hbreak c rfl) htable⟩

theorem exists_tableText (text : List σ) : ∃ table, TableText text table := by
  induction hlength : text.length using Nat.strongRecOn generalizing text with
  | ind n ih =>
    cases text with
    | nil => exact ⟨[], .nil⟩
    | cons c later =>
      by_cases hc : IsBreak c
      · obtain ⟨table, htable⟩ := ih later.length (by simp [← hlength]) later rfl
        exact ⟨table, .blank hc htable⟩
      · rcases exists_recordText (c :: later) with ⟨first, fields, rest, htext, hfirst, hbreak⟩ | ⟨fields, h⟩
        · have hne : first ≠ [] := by
            rintro rfl
            rw [List.nil_append] at htext
            exact hc (hbreak c (by rw [← htext]; rfl))
          have hlt : rest.tail.length < n := by
            have hpositive := List.length_pos_iff.mpr hne
            rw [← hlength, htext, List.length_append, List.length_tail]
            omega
          rw [htext]
          exact hfirst.exists_tableText hne hbreak (ih _ hlt rest.tail rfl)
        · exact ⟨[fields], .last h (by simp)⟩

end

end EnergyProfile.Csv
