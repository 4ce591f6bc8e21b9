import EnergyProfile.Csv.Reading
import EnergyProfile.Proofs.Csv.Splitting
import EnergyProfile.Proofs.Text.Utf8

/-!
# Tables in UTF-8

The symbols that separate are single bytes, and no byte of any other character is one of them. So the
bytes of a text say the same table as its characters do, field by field in UTF-8. A byte order mark in
front of a file is no part of it.
-/

namespace EnergyProfile.Csv

set_option autoImplicit false

open Text

theorem Bare.encoded {text : List Char} (h : Bare text) : Bare (utf8 text) := by
  constructor
  · rintro b hb (rfl | rfl | rfl)
    · exact h.plain ',' ((mem_utf8_iff (by decide)).mp hb) (Or.inl rfl)
    · exact h.plain '\r' ((mem_utf8_iff (by decide)).mp hb) (Or.inr (Or.inl rfl))
    · exact h.plain '\n' ((mem_utf8_iff (by decide)).mp hb) (Or.inr (Or.inr rfl))
  · intro hquote
    exact h.unquoted ((head?_utf8_iff (a := '"') (by decide)).mp hquote)

theorem utf8_doubled (field : List Char) : utf8 (doubled field) = doubled (utf8 field) := by
  induction field with
  | nil => rfl
  | cons c field ih =>
    have happend : doubled (utf8 (c :: field)) =
        doubled (String.utf8EncodeChar c) ++ doubled (utf8 field) := by
      rw [utf8_cons]
      exact List.flatMap_append
    rw [doubled_cons, utf8_append, ih, happend]
    congr 1
    by_cases hc : c = Alphabet.quote
    · rw [hc]
      rfl
    · have hquote : (Alphabet.quote : UInt8) ∉ String.utf8EncodeChar c :=
        fun h => hc ((mem_utf8EncodeChar_iff (a := '"') (by decide)).mp h)
      rw [doubled_of_not_mem hquote, if_neg hc, utf8_cons, utf8_nil, List.append_nil]

theorem utf8_quote (field : List Char) : utf8 (quote field) = quote (utf8 field) := by
  rw [quote_eq, quote_eq, ← utf8_doubled, utf8_append]
  rfl

theorem FieldText.encoded {text field : List Char} (h : FieldText text field) :
    FieldText (utf8 text) (utf8 field) := by
  cases h with
  | bare h => exact .bare h.encoded
  | quoted inner h =>
    rw [utf8_append, utf8_append, utf8_quote]
    exact .quoted _ h.encoded

theorem LastFieldText.encoded {text field : List Char} (h : LastFieldText text field) :
    LastFieldText (utf8 text) (utf8 field) := by
  cases h with
  | closed h => exact .closed h.encoded
  | unclosed =>
    have hquote : utf8 (Alphabet.quote :: doubled field) =
        Alphabet.quote :: doubled (utf8 field) := by
      rw [← utf8_doubled]
      rfl
    rw [hquote]
    exact .unclosed _

theorem RecordText.encoded {Last : List Char → List Char → Prop}
    {Last' : List UInt8 → List UInt8 → Prop}
    (hlast : ∀ {text field : List Char}, Last text field → Last' (utf8 text) (utf8 field))
    {text : List Char} {fields : List (List Char)} (h : RecordText Last text fields) :
    RecordText Last' (utf8 text) (fields.map utf8) := by
  induction h with
  | last h => exact .last (hlast h)
  | @cons text field rest fields h _ ih =>
    have hcomma : utf8 (text ++ Alphabet.comma :: rest) =
        utf8 text ++ Alphabet.comma :: utf8 rest := utf8_append text _
    rw [hcomma]
    exact .cons h.encoded ih

theorem IsBreak.encoded {c : Char} (hc : IsBreak c) :
    ∃ b : UInt8, IsBreak b ∧ ∀ rest, utf8 (c :: rest) = b :: utf8 rest := by
  rcases hc with rfl | rfl
  · exact ⟨_, Or.inl rfl, utf8_symbol (a := '\r') (by decide)⟩
  · exact ⟨_, Or.inr rfl, utf8_symbol (a := '\n') (by decide)⟩

theorem TableText.encoded {text : List Char} {table : List (List (List Char))}
    (h : TableText text table) : TableText (utf8 text) (table.map (List.map utf8)) := by
  induction h with
  | nil => exact .nil
  | blank hc _ ih =>
    obtain ⟨b, hb, hsymbol⟩ := hc.encoded
    rw [hsymbol]
    exact .blank hb ih
  | record h hne hc _ ih =>
    obtain ⟨b, hb, hsymbol⟩ := hc.encoded
    rw [utf8_append, hsymbol]
    exact .record (h.encoded FieldText.encoded) (utf8_ne_nil hne) hb ih
  | last h hne => exact .last (h.encoded LastFieldText.encoded) (utf8_ne_nil hne)

/-- The characters of a file behind a byte order mark, if there is one. -/
def withoutMark : List Char → List Char
  | '\uFEFF' :: rest => rest
  | text => text

theorem withoutMark_eq_self {text : List Char} (h : text.head? ≠ some '\uFEFF') :
    withoutMark text = text := by
  unfold withoutMark
  split
  · exact absurd rfl h
  · rfl

theorem isPrefixOf_utf8_iff (text : List Char) :
    byteOrderMark.isPrefixOf (utf8 text) = true ↔ text.head? = some '\uFEFF' := by
  have hmark : byteOrderMark = utf8 ['\uFEFF'] := by decide
  rw [List.isPrefixOf_iff_prefix, hmark]
  constructor
  · rintro ⟨rest, hrest⟩
    have hbytes : ['\uFEFF'].utf8Encode ++ rest.toByteArray = text.utf8Encode := by
      rw [List.utf8Encode, List.utf8Encode, ← List.toByteArray_append]
      exact congrArg List.toByteArray hrest
    obtain ⟨later, rfl⟩ := List.isPrefix_of_utf8Encode_append_eq_utf8Encode _ hbytes
    rfl
  · intro h
    cases text with
    | nil => cases h
    | cons c text =>
      rw [Option.some.inj h]
      exact ⟨utf8 text, (utf8_append ['\uFEFF'] text).symm⟩

/-- A file says the table of its text, wherever its records begin. -/
theorem fields_recordsOfBytes {text : List Char} {table : List (List (List Char))}
    (h : TableText (withoutMark text) table) :
    (recordsOfBytes (utf8 text)).map Record.fields = table.map (List.map utf8) := by
  unfold recordsOfBytes
  split
  · rename_i hmark
    rw [isPrefixOf_utf8_iff] at hmark
    obtain ⟨rest, rfl⟩ : ∃ rest, text = '\uFEFF' :: rest := by
      cases text with
      | nil => cases hmark
      | cons c rest => exact ⟨rest, by rw [Option.some.inj hmark]⟩
    have hdrop : (utf8 ('\uFEFF' :: rest)).drop 3 = utf8 rest := rfl
    rw [hdrop]
    exact (tableText_iff 3).mp h.encoded
  · rename_i hmark
    rw [isPrefixOf_utf8_iff] at hmark
    rw [withoutMark_eq_self hmark] at h
    exact (tableText_iff 0).mp h.encoded

end EnergyProfile.Csv
