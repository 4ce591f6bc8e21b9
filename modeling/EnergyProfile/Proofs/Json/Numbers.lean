import EnergyProfile.Proofs.Json.Tokens

/-!
# Numbers are written in proper digits

What counts and finite doubles are written as is a number of JSON. A count is read back from it; a
double is, whenever its decimal form is, which is not a matter of JSON.
-/

namespace EnergyProfile.Json

set_option autoImplicit false

theorem isDigit_of_mem {n : Nat} : ∀ c ∈ Nat.toDigits 10 n, c.isDigit = true := fun _ hc =>
  Nat.isDigit_of_mem_toDigits (by decide) (by decide) hc

theorem head?_toDigits_ne {n : Nat} (h : n ≠ 0) : (Nat.toDigits 10 n).head? ≠ some '0' := by
  induction n using Nat.strongRecOn with
  | ind n ih =>
    by_cases hlt : n < 10
    · rw [Nat.toDigits_of_lt_base hlt, List.head?_cons]
      simpa [Nat.digitChar_eq_zero] using h
    · have hge := Nat.le_of_not_lt hlt
      have hhead := ih (n / 10) (by omega) (by omega)
      rw [Nat.toDigits_of_base_le (by decide) hge, List.head?_append]
      cases hdigits : Nat.toDigits 10 (n / 10) with
      | nil => exact absurd hdigits Nat.toDigits_ne_nil
      | cons c rest => rwa [hdigits] at hhead

namespace Numeral

theorem proper_ofNat (n : Nat) : (ofNat n).Proper := by
  unfold ofNat
  simp only [Nat.toString_eq_repr, Nat.toList_repr]
  constructor
  case whole => exact ⟨Nat.toDigits_ne_nil, isDigit_of_mem⟩
  case leading =>
    intro hzero
    by_cases hn : n = 0
    · rw [hn, Nat.toDigits_zero]
    · exact absurd hzero (head?_toDigits_ne hn)
  case fraction => simp
  case exponent => simp

/-- Proper digits of a number are its digits with zeros around them, cut where the point stands. -/
theorem proper_ofDecimal (negative : Bool) (d : Decimal) : (ofDecimal negative d).Proper := by
  have hne : Nat.toDigits 10 d.digits ≠ [] := Nat.toDigits_ne_nil
  have hlength := List.length_pos_iff.mpr hne
  have hdigits := isDigit_of_mem (n := d.digits)
  have hzeros (k : Nat) : ∀ c ∈ List.replicate k '0', c.isDigit = true := fun c hc =>
    (List.mem_replicate.mp hc).2 ▸ rfl
  have htake {k : Nat} (hk : k ≠ 0) (hd : d.digits ≠ 0) :
      ((Nat.toDigits 10 d.digits).take k).head? ≠ some '0' := by
    rw [List.head?_take, if_neg hk]
    exact head?_toDigits_ne hd
  unfold ofDecimal
  simp only [Nat.toString_eq_repr, Nat.toList_repr]
  split_ifs with hzero hfar hwhole hsmall
  · exact ⟨by simp, by simp, by simp, by simp⟩
  · refine ⟨⟨by simp [hne], fun c hc => hdigits c (List.mem_of_mem_take hc)⟩,
      fun h => absurd h (htake (by decide) hzero), fun c hc => hdigits c (List.mem_of_mem_drop hc), ?_⟩
    rintro minus digits h
    obtain ⟨_, rfl⟩ := Prod.mk.inj (Option.some.inj h)
    exact ⟨Nat.toDigits_ne_nil, isDigit_of_mem⟩
  · refine ⟨⟨by simp [hne], fun c hc => ?_⟩, fun h => ?_, by simp, by simp⟩
    · exact (List.mem_append.mp hc).elim (hdigits c) (hzeros _ c)
    · cases hcons : Nat.toDigits 10 d.digits with
      | nil => exact absurd hcons hne
      | cons c rest =>
        rw [hcons] at h
        exact absurd (hcons ▸ h) (head?_toDigits_ne hzero)
  · refine ⟨by simp, by simp, fun c hc => ?_, by simp⟩
    exact (List.mem_append.mp hc).elim (hzeros _ c) (hdigits c)
  · have hcut : (Nat.toDigits 10 d.digits).length - (-d.exponent).toNat ≠ 0 := by omega
    refine ⟨⟨?_, fun c hc => hdigits c (List.mem_of_mem_take hc)⟩,
      fun h => absurd h (htake hcut hzero), fun c hc => hdigits c (List.mem_of_mem_drop hc), by simp⟩
    intro hnil
    exact (List.take_eq_nil_iff.mp hnil).elim hcut hne

theorem proper_of_ofFloat? {x : Float} {n : Numeral} (h : ofFloat? x = some n) : n.Proper := by
  unfold ofFloat? at h
  split at h
  · rw [← Option.some.inj h]
    exact proper_ofDecimal _ _
  · cases h

theorem le_ofDigitChars (digits : List Char) (n : Nat) : n ≤ Nat.ofDigitChars 10 digits n := by
  induction digits generalizing n with
  | nil => exact Nat.le_refl n
  | cons c rest ih =>
    have hnext := ih (10 * n + (c.toNat - '0'.toNat))
    exact Nat.le_trans (by omega) hnext

theorem absorb_of_le (digits : List Char) (n : Nat) (h : Nat.ofDigitChars 10 digits n ≤ maxSize) :
    absorb n digits = (Nat.ofDigitChars 10 digits n, []) := by
  induction digits generalizing n with
  | nil => rfl
  | cons c rest ih =>
    have hnext := Nat.le_trans (le_ofDigitChars rest (10 * n + (c.toNat - '0'.toNat))) h
    simp only [absorb, if_pos hnext]
    exact ih _ h

theorem count?_ofNat {n : Nat} (h : n ≤ maxSize) : (ofNat n).count? = some n := by
  have hdigits := Nat.ofDigitChars_ten_toDigits (n := n)
  have habsorb := absorb_of_le (Nat.toDigits 10 n) 0 (hdigits.symm ▸ h)
  rw [hdigits] at habsorb
  simp [count?, ofNat, habsorb]

theorem absorb_le (digits : List Char) {n : Nat} (h : n ≤ maxSize) :
    (absorb n digits).1 ≤ maxSize := by
  induction digits generalizing n with
  | nil => exact h
  | cons c rest ih =>
    simp only [absorb]
    split_ifs with hnext
    · exact ih hnext
    · exact h

theorem count?_le {n : Numeral} {k : Nat} (h : n.count? = some k) : k ≤ maxSize := by
  have hbound := absorb_le n.whole (Nat.zero_le maxSize)
  unfold count? at h
  split at h
  · cases h
  · split at h
    · rename_i hvalue
      obtain rfl := Option.some.inj h
      rwa [hvalue] at hbound
    · cases h

end Numeral

theorem isSpace_of_isDigit {c : Char} (h : c.isDigit = true) : isSpace c = false := by
  simp only [isSpace, Bool.or_eq_false_iff, beq_eq_false_iff_ne]
  refine ⟨⟨⟨?_, ?_⟩, ?_⟩, ?_⟩ <;> rintro rfl <;> simp at h

theorem value_digit (bound : Nat) {c : Char} (h : c.isDigit = true) (rest : List Char) :
    value (bound + 1) (c :: rest) = numberValue (numeral false (c :: rest)) := by
  have hspace : skipSpace (c :: rest) = c :: rest := by
    simp [skipSpace, isSpace_of_isDigit h]
  rw [value, hspace]
  split
  case h_9 heq =>
    obtain ⟨rfl, rfl⟩ := List.cons.inj heq
    rw [if_pos h]
  all_goals simp_all

theorem value_number (bound : Nat) {n : Numeral} (h : n.Proper) {rest : List Char}
    (hrest : EndsNumber rest) : value (bound + 1) (n.text ++ rest) = (.number n, rest) := by
  have hnumeral := numeral_text h hrest
  simp only [Numeral.text_eq, List.append_assoc]
  cases hnegative : n.negative with
  | true =>
    rw [hnegative] at hnumeral
    simp [value, skipSpace, isSpace, hnumeral, numberValue]
  | false =>
    rw [hnegative] at hnumeral
    cases hwhole : n.whole with
    | nil => exact absurd hwhole h.whole.1
    | cons c digits =>
      have hdigit := h.whole.2 c (by simp [hwhole])
      rw [hwhole, List.cons_append] at hnumeral
      simp only [Bool.false_eq_true, if_false, List.nil_append, List.cons_append,
        value_digit bound hdigit, hnumeral, numberValue]

end EnergyProfile.Json
