import EnergyProfile.Json.Reading
import EnergyProfile.Proofs.Double.Special
import EnergyProfile.Proofs.Json.Trees
import EnergyProfile.Proofs.Steps

/-!
# Values are read back from trees

What a reader makes of a tree that was written for it: each field of a record once and in order,
each item of a list, each number. Doubles come back if their decimal form is read as the number that
it was written for, which is a matter of decimals and not of JSON.
-/

namespace EnergyProfile.Json

set_option autoImplicit false

theorem ok_bind {ε β γ : Type} (b : β) (f : β → Except ε γ) : Except.ok b >>= f = f b := rfl

/-- A member that can be read for the field of its name. -/
def Fitting (known : List Field) (member : String × Json) : Prop :=
  ∃ f, known.find? (·.name = member.1) = some f ∧ f.check member.2 = .ok ()

theorem fieldsOfMembers_named {known : List Field} (list : List (String × Json)) (found : Fields)
    (hfitting : ∀ member ∈ list, Fitting known member)
    (hnodup : (list.map Prod.fst).Nodup) (hnew : ∀ member ∈ list, found.lookup member.1 = none) :
    fieldsOfMembers known found (named list) = .ok (list.reverse ++ found) := by
  induction list generalizing found with
  | nil => rfl
  | cons member list ih =>
    obtain ⟨name, value⟩ := member
    obtain ⟨f, hfind, hcheck⟩ := hfitting (name, value) List.mem_cons_self
    have hfound := hnew (name, value) List.mem_cons_self
    simp only at hfind hcheck hfound
    rw [List.map_cons, List.nodup_cons] at hnodup
    have hstep : fieldsOfMembers known found (named ((name, value) :: list)) =
        fieldsOfMembers known ((name, value) :: found) (named list) := by
      simp only [named, List.map_cons, fieldsOfMembers, hfind, hfound, hcheck, Option.isSome_none,
        Bool.false_eq_true, if_false]
      rfl
    rw [hstep, ih]
    · simp
    · exact fun member hmember => hfitting member (List.mem_cons_of_mem _ hmember)
    · exact hnodup.2
    · intro member hmember
      have hne : member.1 ≠ name := by
        intro heq
        exact hnodup.1 (List.mem_map.mpr ⟨member, hmember, heq⟩)
      rw [List.lookup_cons, beq_false_of_ne hne]
      exact hnew member (List.mem_cons_of_mem _ hmember)

theorem fields_record {known : List Field} {list : List (String × Json)}
    (hfitting : ∀ member ∈ list, Fitting known member)
    (hnodup : (list.map Prod.fst).Nodup) : fields known (.record list) = .ok list.reverse := by
  have hmembers := fieldsOfMembers_named list [] hfitting hnodup (by simp)
  rw [List.append_nil] at hmembers
  simp only [Json.record, fields]
  rw [named] at hmembers
  rw [hmembers]
  rfl

theorem check_field {β : Type} {name : String} {read : Json → Except JsonFault β} {value : Json}
    {b : β} (h : read value = .ok b) : (field name read).check value = .ok () := by
  simp [field, h, Except.map]

theorem toList_list {β : Type} {read : Json → Except JsonFault β} {write : β → Json}
    {values : List β} (h : ∀ b ∈ values, read (write b) = .ok b) :
    toList read (.list (values.map write)) = .ok values := by
  have hitems : (values.map write).mapM read = .ok values := by
    rw [mapM_eq_ok_iff, List.forall₂_map_left_iff, List.forall₂_same]
    exact h
  simp only [Json.list, toList, hitems]
  rfl

theorem toCount_ofNat {n : Nat} (h : n ≤ maxSize) : toCount (ofNat n) = .ok n := by
  simp [toCount, ofNat, Numeral.count?_ofNat h]

theorem toCount_le {json : Json} {n : Nat} (h : json.toCount = .ok n) : n ≤ maxSize := by
  unfold toCount at h
  split at h
  · split at h
    · rename_i hcount
      obtain rfl := Except.ok.inj h
      exact Numeral.count?_le hcount
    · cases h
  · cases h

/-- The number that a double is written as is read as that double. -/
def ReadsBackNumber (x : Float) : Prop :=
  ∀ n, Numeral.ofFloat? x = some n → n.value? = some x

instance (x : Float) : Decidable (ReadsBackNumber x) :=
  decidable_of_iff ((Numeral.ofFloat? x).all fun n => decide (n.value? = some x)) (by
    simp [ReadsBackNumber, Option.all_eq_true])

/-- A double that is not finite is written as absent, so only a finite one can be read back. -/
theorem toFloat_ofFloat {x : Float} (hfinite : x.isFinite) (h : ReadsBackNumber x) :
    toFloat (ofFloat x) = .ok x := by
  obtain ⟨negative, m, q, hx⟩ := Double.isFinite_iff.mp hfinite
  have hnumeral : Numeral.ofFloat? x =
      some (Numeral.ofDecimal negative (Decimal.shortest .toEven m q)) := by
    simp [Numeral.ofFloat?, hx]
  simp [ofFloat, hnumeral, toFloat, h _ hnumeral]

theorem sound_ofNat (n : Nat) : Sound (ofNat n) :=
  .number (Numeral.proper_ofNat n)

theorem sound_ofFloat (x : Float) : Sound (ofFloat x) := by
  unfold ofFloat
  split
  · rename_i n hn
    exact .number (Numeral.proper_of_ofFloat? hn)
  · exact .null

theorem sound_list_map {β : Type} {write : β → Json} (h : ∀ b, Sound (write b)) (values : List β) :
    Sound (.list (values.map write)) :=
  .list (List.forall_mem_map.mpr fun b _ => h b)

/-- A value that is written soundly and read back from its tree is read back from its text. -/
theorem readText_text {β : Type} {read : Json → Except JsonFault β} {json : Json} {b : β}
    (hsound : Sound json) (h : read json = .ok b) : readText read json.text = .ok b := by
  simp only [readText, parse_text hsound, h]
  rfl

end EnergyProfile.Json
