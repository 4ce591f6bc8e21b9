import EnergyProfile.Proofs.Text.Utf8
import EnergyProfile.Text.Blank
import Mathlib.Data.List.TakeWhile

/-!
# Trimming

What is taken off the two ends of a text is white space only, and it does not matter in how many steps:
single bytes of white space that go before a field is known to be text would have gone afterwards.
-/

namespace EnergyProfile.Text

set_option autoImplicit false

section

variable {α : Type} {p q : α → Bool}

theorem trimBoth_append_left {blank : List α} (hblank : ∀ x ∈ blank, p x = true) (xs : List α) :
    trimBoth p (blank ++ xs) = trimBoth p xs := by
  rw [trimBoth, trimBoth, List.dropWhile_append_of_pos hblank]

theorem trimBoth_append_right {blank : List α} (hblank : ∀ x ∈ blank, p x = true) (xs : List α) :
    trimBoth p (xs ++ blank) = trimBoth p xs := by
  have hreverse : ∀ x ∈ blank.reverse, p x = true := fun x hx => hblank x (List.mem_reverse.mp hx)
  rw [trimBoth, trimBoth, List.dropWhile_append]
  split
  · rename_i hempty
    rw [List.isEmpty_iff.mp hempty, ← List.append_nil blank, List.dropWhile_append_of_pos hblank]
    rfl
  · rw [List.reverse_append, List.dropWhile_append_of_pos hreverse]

theorem exists_append_trimBoth (q : α → Bool) (xs : List α) :
    ∃ before behind, xs = before ++ trimBoth q xs ++ behind ∧ (∀ x ∈ before, q x = true) ∧
      ∀ x ∈ behind, q x = true := by
  refine ⟨xs.takeWhile q, ((xs.dropWhile q).reverse.takeWhile q).reverse, ?_, ?_, ?_⟩
  · rw [List.append_assoc, trimBoth, ← List.reverse_append, List.takeWhile_append_dropWhile,
      List.reverse_reverse, List.takeWhile_append_dropWhile]
  · exact fun x hx => List.mem_takeWhile_imp hx
  · exact fun x hx => List.mem_takeWhile_imp (List.mem_reverse.mp hx)

theorem trimBoth_trimBoth (h : ∀ x, q x = true → p x = true) (xs : List α) :
    trimBoth p (trimBoth q xs) = trimBoth p xs := by
  obtain ⟨before, behind, hxs, hbefore, hbehind⟩ := exists_append_trimBoth q xs
  conv_rhs => rw [hxs]
  rw [trimBoth_append_right fun x hx => h x (hbehind x hx),
    trimBoth_append_left fun x hx => h x (hbefore x hx)]

end

/-- A character of white space that is a single byte and taken off as such. -/
def isBlankAscii (c : Char) : Bool :=
  c.toNat < 128 && isBlankByte (UInt8.ofNat c.toNat)

theorem isBlank_of_isBlankAscii (c : Char) (h : isBlankAscii c = true) : isBlank c = true := by
  simp only [isBlankAscii, Bool.and_eq_true, decide_eq_true_eq, isBlankByte, Bool.or_eq_true,
    beq_iff_eq] at h
  obtain ⟨hlt, hbyte⟩ := h
  have hcode (b : UInt8) (hb : UInt8.ofNat c.toNat = b) : c.toNat = b.toNat := by
    rw [← hb, toNat_ofNat_of_lt hlt]
  simp only [isBlank]
  rcases hbyte with (((hb | hb) | hb) | hb) | hb <;> simp [hcode _ hb]

/-- A class of bytes is taken off a text in UTF-8 as the characters of the class are off the text. -/
theorem dropWhile_flatMap {encode : Char → List UInt8} {p : UInt8 → Bool} {q : Char → Bool}
    (hdrop : ∀ c, q c = true → (encode c).all p = true)
    (hkeep : ∀ c, q c = false → ∃ b rest, encode c = b :: rest ∧ p b = false) (text : List Char) :
    (text.flatMap encode).dropWhile p = (text.dropWhile q).flatMap encode := by
  induction text with
  | nil => rfl
  | cons c text ih =>
    rw [List.flatMap_cons]
    cases hc : q c with
    | true =>
      rw [List.dropWhile_append_of_pos (List.all_eq_true.mp (hdrop c hc)), ih,
        List.dropWhile_cons_of_pos hc]
    | false =>
      obtain ⟨b, rest, hencode, hb⟩ := hkeep c hc
      rw [List.dropWhile_cons_of_neg (by simp [hc]), List.flatMap_cons, hencode, List.cons_append,
        List.dropWhile_cons_of_neg (by simp [hb])]

theorem all_isBlankByte {c : Char} (h : isBlankAscii c = true) :
    (String.utf8EncodeChar c).all isBlankByte = true := by
  simp only [isBlankAscii, Bool.and_eq_true, decide_eq_true_eq] at h
  rw [utf8EncodeChar_of_lt h.1]
  simpa using h.2

theorem not_isBlankByte {c : Char} (h : isBlankAscii c = false) {b : UInt8}
    (hb : b ∈ String.utf8EncodeChar c) : isBlankByte b = false := by
  by_contra hblank
  rw [Bool.not_eq_false] at hblank
  have hlt : b.toNat < 128 := by
    simp only [isBlankByte, Bool.or_eq_true, beq_iff_eq] at hblank
    rcases hblank with (((rfl | rfl) | rfl) | rfl) | rfl <;> decide
  by_cases hc : c.toNat < 128
  · rw [utf8EncodeChar_of_lt hc, List.mem_singleton] at hb
    simp [isBlankAscii, hc, ← hb, hblank] at h
  · have := le_of_mem_utf8EncodeChar (Nat.le_of_not_lt hc) hb
    omega

theorem dropWhile_utf8 (text : List Char) :
    (utf8 text).dropWhile isBlankByte = utf8 (text.dropWhile isBlankAscii) := by
  apply dropWhile_flatMap
  · exact fun c hc => all_isBlankByte hc
  · intro c hc
    obtain ⟨b, rest, hencode⟩ := List.exists_cons_of_ne_nil (@String.utf8EncodeChar_ne_nil c)
    exact ⟨b, rest, hencode, not_isBlankByte hc (hencode ▸ List.mem_cons_self)⟩

theorem reverse_utf8 (text : List Char) :
    (utf8 text).reverse = text.reverse.flatMap fun c => (String.utf8EncodeChar c).reverse :=
  List.reverse_flatMap

theorem dropWhile_reverse_utf8 (text : List Char) :
    (utf8 text).reverse.dropWhile isBlankByte =
      (utf8 (text.reverse.dropWhile isBlankAscii).reverse).reverse := by
  rw [reverse_utf8, reverse_utf8, List.reverse_reverse]
  apply dropWhile_flatMap
  · intro c hc
    rw [List.all_reverse]
    exact all_isBlankByte hc
  · intro c hc
    have hne : (String.utf8EncodeChar c).reverse ≠ [] := by simp
    obtain ⟨b, rest, hencode⟩ := List.exists_cons_of_ne_nil hne
    have hb : b ∈ (String.utf8EncodeChar c).reverse := hencode ▸ List.mem_cons_self
    exact ⟨b, rest, hencode, not_isBlankByte hc (List.mem_reverse.mp hb)⟩

theorem trimBoth_utf8 (text : List Char) :
    trimBoth isBlankByte (utf8 text) = utf8 (trimBoth isBlankAscii text) := by
  rw [trimBoth, trimBoth, dropWhile_utf8, dropWhile_reverse_utf8, List.reverse_reverse]

/-- Trimmed as bytes and then as text, a field is trimmed as text. -/
theorem trim_trimBoth (text : List Char) :
    trim (String.ofList (trimBoth isBlankAscii text)) = trim (String.ofList text) := by
  simp only [trim, String.toList_ofList, trimBoth_trimBoth isBlank_of_isBlankAscii]

end EnergyProfile.Text
