import EnergyProfile.Text.Utf8
import Mathlib.Data.List.Basic

/-!
# Characters and their bytes

A text is the bytes of its characters, one after another. A byte below 128 is a character by itself and
part of no other one.
-/

namespace EnergyProfile.Text

set_option autoImplicit false

/-- Characters as bytes. -/
def utf8 (text : List Char) : List UInt8 :=
  text.flatMap String.utf8EncodeChar

@[simp] theorem utf8_nil : utf8 [] = [] := rfl

theorem utf8_cons (c : Char) (text : List Char) :
    utf8 (c :: text) = String.utf8EncodeChar c ++ utf8 text := List.flatMap_cons

theorem utf8_append (a b : List Char) : utf8 (a ++ b) = utf8 a ++ utf8 b :=
  List.flatMap_append

theorem toList_loop (bytes : ByteArray) (i : Nat) (before : List UInt8) :
    ByteArray.toList.loop bytes i before = before.reverse ++ bytes.data.toList.drop i := by
  fun_induction ByteArray.toList.loop bytes i before with
  | case1 i before h ih =>
    have hi : i < bytes.data.toList.length := by simpa using h
    rw [ih, List.drop_eq_getElem_cons hi]
    simp [ByteArray.get!, h]
  | case2 i before h =>
    rw [List.drop_eq_nil_of_le (by simpa using h), List.append_nil]

theorem toList_eq (bytes : ByteArray) : bytes.toList = bytes.data.toList :=
  toList_loop bytes 0 []

theorem toByteArray_eq (bytes : List UInt8) : bytes.toByteArray = ⟨bytes.toArray⟩ := by
  apply ByteArray.ext
  apply Array.ext'
  exact List.toList_data_toByteArray

theorem toList_toUTF8 (s : String) : s.toUTF8.toList = utf8 s.toList := by
  rw [toList_eq, String.toUTF8_eq_toByteArray, ← String.utf8Encode_toList]
  exact List.toList_data_toByteArray

theorem ofBytes_utf8 (text : List Char) : ofBytes ⟨(utf8 text).toArray⟩ = .ok (String.ofList text) := by
  have hbytes : (⟨(utf8 text).toArray⟩ : ByteArray) = (String.ofList text).toByteArray := by
    rw [String.toByteArray_ofList, ← toByteArray_eq]
    rfl
  rw [ofBytes, hbytes, String.fromUTF8?, dif_pos (String.ofList text).isValidUTF8]
  rfl

theorem le_of_mem_utf8EncodeChar {c : Char} (hc : 128 ≤ c.toNat) {b : UInt8}
    (hb : b ∈ String.utf8EncodeChar c) : 128 ≤ b.toNat := by
  have hval : c.val.toNat = c.toNat := rfl
  have hbyte {n : Nat} (hlow : 128 ≤ n) (hhigh : n < 256) : 128 ≤ (UInt8.ofNat n).toNat := by
    rw [UInt8.toNat_ofNat_of_lt' hhigh]
    exact hlow
  unfold String.utf8EncodeChar at hb
  simp only [hval] at hb
  rw [if_neg (by omega)] at hb
  split at hb
  · simp only [List.mem_cons, List.not_mem_nil, or_false] at hb
    rcases hb with rfl | rfl <;> exact hbyte (by omega) (by omega)
  · split at hb
    · simp only [List.mem_cons, List.not_mem_nil, or_false] at hb
      rcases hb with rfl | rfl | rfl <;> exact hbyte (by omega) (by omega)
    · simp only [List.mem_cons, List.not_mem_nil, or_false] at hb
      rcases hb with rfl | rfl | rfl | rfl <;> exact hbyte (by omega) (by omega)

theorem utf8EncodeChar_of_lt {c : Char} (hc : c.toNat < 128) :
    String.utf8EncodeChar c = [UInt8.ofNat c.toNat] := by
  unfold String.utf8EncodeChar
  exact if_pos (show c.val.toNat ≤ 127 from Nat.le_of_lt_succ hc)

theorem toNat_ofNat_of_lt {n : Nat} (h : n < 128) : (UInt8.ofNat n).toNat = n :=
  UInt8.toNat_ofNat_of_lt' (Nat.lt_trans h (by decide))

theorem mem_utf8EncodeChar_iff {c a : Char} (ha : a.toNat < 128) :
    UInt8.ofNat a.toNat ∈ String.utf8EncodeChar c ↔ c = a := by
  constructor
  · intro h
    by_cases hc : c.toNat < 128
    · rw [utf8EncodeChar_of_lt hc, List.mem_singleton] at h
      have hsame := congrArg UInt8.toNat h
      rw [toNat_ofNat_of_lt ha, toNat_ofNat_of_lt hc] at hsame
      exact Char.toNat_inj.mp hsame.symm
    · have hlow := le_of_mem_utf8EncodeChar (Nat.le_of_not_lt hc) h
      rw [toNat_ofNat_of_lt ha] at hlow
      omega
  · rintro rfl
    rw [utf8EncodeChar_of_lt ha]
    exact List.mem_singleton_self _

theorem mem_utf8_iff {a : Char} (ha : a.toNat < 128) {text : List Char} :
    UInt8.ofNat a.toNat ∈ utf8 text ↔ a ∈ text := by
  simp only [utf8, List.mem_flatMap, mem_utf8EncodeChar_iff ha]
  exact ⟨fun ⟨c, hc, hca⟩ => hca ▸ hc, fun h => ⟨a, h, rfl⟩⟩

theorem head?_utf8_iff {a : Char} (ha : a.toNat < 128) {text : List Char} :
    (utf8 text).head? = some (UInt8.ofNat a.toNat) ↔ text.head? = some a := by
  cases text with
  | nil => simp
  | cons c text =>
    rw [utf8_cons, List.head?_append_of_ne_nil _ String.utf8EncodeChar_ne_nil]
    constructor
    · intro h
      rw [List.head?_cons, (mem_utf8EncodeChar_iff ha).mp (List.mem_of_mem_head? h)]
    · intro h
      rw [Option.some.inj h, utf8EncodeChar_of_lt ha]
      rfl

theorem utf8_symbol {a : Char} (ha : a.toNat < 128) (text : List Char) :
    utf8 (a :: text) = UInt8.ofNat a.toNat :: utf8 text := by
  rw [utf8_cons, utf8EncodeChar_of_lt ha]
  rfl

theorem utf8_ne_nil {text : List Char} (h : text ≠ []) : utf8 text ≠ [] := by
  cases text with
  | nil => exact absurd rfl h
  | cons c text => simp [utf8_cons]

end EnergyProfile.Text
