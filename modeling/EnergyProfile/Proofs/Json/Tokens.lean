import EnergyProfile.Json.Parsing
import EnergyProfile.Json.Printing
import Mathlib.Data.List.TakeDrop

/-!
# Strings and numbers survive writing and reading

Every string is read back from its written form, and so is every number in proper digits. What
follows matters only for numbers, which end where no digit, point or exponent goes on.
-/

namespace EnergyProfile.Json

set_option autoImplicit false

theorem codeUnit?_hexadecimal {n : Nat} (h : n < 0x20) :
    codeUnit? ['0', '0', hexadecimal (n / 16), hexadecimal (n % 16)] = some n := by
  revert n
  decide

theorem unitCharacter_toNat {c : Char} (h : c.toNat < 0x20) (after : List Char) :
    unitCharacter c.toNat after = .ok (c, false) := by
  have hlow : isLowSurrogate c.toNat = false := by
    simp only [isLowSurrogate, Bool.and_eq_false_iff, decide_eq_false_iff_not]
    omega
  have hhigh : isHighSurrogate c.toNat = false := by
    simp only [isHighSurrogate, Bool.and_eq_false_iff, decide_eq_false_iff_not]
    omega
  simp [unitCharacter, hlow, hhigh, Char.ofNat_toNat]

theorem stringRest_plain (text : List Char) {c : Char} (rest : List Char) (hquote : c ≠ '"')
    (hbackslash : c ≠ '\\') (hcontrol : ¬c.toNat < 0x20) :
    stringRest text none (c :: rest) = stringRest (c :: text) none rest := by
  rw [stringRest.eq_def]
  split
  case h_6 heq =>
    obtain ⟨rfl, rfl⟩ := List.cons.inj heq
    rw [if_neg hcontrol]
  all_goals simp_all

theorem stringRest_printCharacter (text : List Char) (c : Char) (rest : List Char) :
    stringRest text none (printCharacter c ++ rest) = stringRest (c :: text) none rest := by
  unfold printCharacter
  split
  case h_8 hquote hbackslash _ _ _ _ _ =>
    split
    · rename_i hcontrol
      simp only [List.cons_append, List.nil_append, stringRest,
        codeUnit?_hexadecimal hcontrol, unitCharacter_toNat hcontrol]
    · exact stringRest_plain text rest hquote hbackslash ‹_›
  all_goals simp [stringRest, plainEscape?]

theorem stringRest_printString (text cs rest : List Char) :
    stringRest text none (cs.flatMap printCharacter ++ '"' :: rest) =
      (.ok (String.ofList (text.reverse ++ cs)), rest) := by
  induction cs generalizing text with
  | nil => simp [stringRest]
  | cons c cs ih =>
    rw [List.flatMap_cons, List.append_assoc, stringRest_printCharacter, ih]
    simp

namespace Numeral

/-- A number in proper digits: none are missing, and the whole part has no zero in front. -/
structure Proper (n : Numeral) : Prop where
  whole : n.whole ≠ [] ∧ ∀ c ∈ n.whole, c.isDigit = true
  leading : n.whole.head? = some '0' → n.whole = ['0']
  fraction : ∀ c ∈ n.fraction, c.isDigit = true
  exponent : ∀ negative digits, n.exponent = some (negative, digits) →
    digits ≠ [] ∧ ∀ c ∈ digits, c.isDigit = true

end Numeral

/-- A text that does not go on with a number. -/
def EndsNumber (rest : List Char) : Prop :=
  ∀ c ∈ rest.head?, c.isDigit = false ∧ c ≠ '.' ∧ c ≠ 'e' ∧ c ≠ 'E'

theorem span_isDigit {digits rest : List Char} (hdigits : ∀ c ∈ digits, c.isDigit = true)
    (hrest : ∀ c ∈ rest.head?, c.isDigit = false) :
    (digits ++ rest).span Char.isDigit = (digits, rest) := by
  rw [List.span_eq_takeWhile_dropWhile, List.takeWhile_append_of_pos hdigits,
    List.dropWhile_append_of_pos hdigits]
  cases rest with
  | nil => simp
  | cons c rest =>
    have hc := hrest c rfl
    simp [hc]

theorem exponentRest_text {negative : Bool} {digits rest : List Char} (hne : digits ≠ [])
    (hdigits : ∀ c ∈ digits, c.isDigit = true) (hrest : EndsNumber rest) :
    exponentRest ((if negative then '-' else '+') :: (digits ++ rest)) =
      .ok ((negative, digits), rest) := by
  have hspan := span_isDigit hdigits fun c hc => (hrest c hc).1
  have hsign : Literal.takeSign ((if negative then '-' else '+') :: (digits ++ rest)) =
      (negative, digits ++ rest) := by
    cases negative <;> rfl
  unfold exponentRest
  rw [hsign]
  simp only [hspan, hne, if_false]

namespace Numeral

variable {n : Numeral} {rest : List Char}

def fractionText (n : Numeral) : List Char :=
  if n.fraction = [] then [] else '.' :: n.fraction

def exponentText (n : Numeral) : List Char :=
  match n.exponent with
  | none => []
  | some (negative, digits) => 'e' :: (if negative then '-' else '+') :: digits

theorem text_eq (n : Numeral) :
    n.text = (if n.negative then ['-'] else []) ++ n.whole ++ n.fractionText ++ n.exponentText :=
  rfl

theorem head_exponentText (hrest : EndsNumber rest) :
    ∀ c ∈ (n.exponentText ++ rest).head?, c.isDigit = false ∧ c ≠ '.' := by
  intro c hc
  unfold exponentText at hc
  split at hc
  · exact ⟨(hrest c hc).1, (hrest c hc).2.1⟩
  · obtain rfl : 'e' = c := by simpa using hc
    decide

theorem head_fractionText (hrest : EndsNumber rest) :
    ∀ c ∈ (n.fractionText ++ (n.exponentText ++ rest)).head?, c.isDigit = false := by
  intro c hc
  unfold fractionText at hc
  split at hc
  · exact (head_exponentText hrest c hc).1
  · obtain rfl : '.' = c := by simpa using hc
    decide

end Numeral

/-- A number whose digits before the exponent are known. -/
def numberEnd (negative : Bool) (whole fraction s : List Char) : Except Flaw (Numeral × List Char) :=
  match s with
  | c :: after =>
    if c = 'e' ∨ c = 'E' then
      (exponentRest after).map fun (exponent, rest) =>
        (⟨negative, whole, fraction, some exponent⟩, rest)
    else .ok (⟨negative, whole, fraction, none⟩, s)
  | [] => .ok (⟨negative, whole, fraction, none⟩, s)

theorem numberRest_of_no_point (negative : Bool) (whole : List Char) {s : List Char}
    (h : ∀ c ∈ s.head?, c ≠ '.') :
    numberRest negative whole s = numberEnd negative whole [] s := by
  unfold numberRest
  split
  · exact absurd rfl (h '.' rfl)
  · cases s with
    | nil => rfl
    | cons c after =>
      simp only [numberEnd, pure_bind]
      split
      · cases exponentRest after <;> rfl
      · rfl

theorem numberRest_of_point (negative : Bool) (whole : List Char) {digits s : List Char}
    (hne : digits ≠ []) (hdigits : ∀ c ∈ digits, c.isDigit = true)
    (h : ∀ c ∈ s.head?, c.isDigit = false) :
    numberRest negative whole ('.' :: (digits ++ s)) = numberEnd negative whole digits s := by
  unfold numberRest
  simp only [span_isDigit hdigits h, hne, if_false, pure_bind]
  cases s with
  | nil => rfl
  | cons c after =>
    simp only [numberEnd]
    split
    · cases exponentRest after <;> rfl
    · rfl

theorem numberEnd_text {n : Numeral} (h : n.Proper) {rest : List Char} (hrest : EndsNumber rest) :
    numberEnd n.negative n.whole n.fraction (n.exponentText ++ rest) = .ok (n, rest) := by
  obtain ⟨negative, whole, fraction, exponent⟩ := n
  cases exponent with
  | none =>
    cases rest with
    | nil => rfl
    | cons c rest =>
      obtain ⟨_, _, hlower, hupper⟩ := hrest c rfl
      simp [Numeral.exponentText, numberEnd, hlower, hupper]
  | some entry =>
    obtain ⟨minus, digits⟩ := entry
    obtain ⟨hne, hdigits⟩ := h.exponent minus digits rfl
    simp only [Numeral.exponentText, List.cons_append, numberEnd, true_or, if_true,
      exponentRest_text hne hdigits hrest, Except.map]

theorem numberRest_text {n : Numeral} (h : n.Proper) {rest : List Char} (hrest : EndsNumber rest) :
    numberRest n.negative n.whole (n.fractionText ++ (n.exponentText ++ rest)) = .ok (n, rest) := by
  have hhead := n.head_exponentText hrest
  unfold Numeral.fractionText
  split
  · rename_i hnil
    rw [List.nil_append, numberRest_of_no_point _ _ fun c hc => (hhead c hc).2, ← hnil]
    exact numberEnd_text h hrest
  · rename_i hne
    rw [List.cons_append, numberRest_of_point _ _ hne h.fraction fun c hc => (hhead c hc).1]
    exact numberEnd_text h hrest

theorem numeral_text {n : Numeral} (h : n.Proper) {rest : List Char} (hrest : EndsNumber rest) :
    numeral n.negative (n.whole ++ (n.fractionText ++ (n.exponentText ++ rest))) = .ok (n, rest) := by
  have hspan := span_isDigit h.whole.2 (n.head_fractionText hrest)
  unfold numeral
  rw [hspan]
  simp only
  split
  · rename_i hnil
    exact absurd hnil h.whole.1
  · rename_i c tail hzero
    have := h.leading (by rw [hzero]; rfl)
    rw [hzero] at this
    simp at this
  · exact numberRest_text h hrest

end EnergyProfile.Json
