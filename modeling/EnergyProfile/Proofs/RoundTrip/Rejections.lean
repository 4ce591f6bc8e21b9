import EnergyProfile.Proofs.RoundTrip.Stages

/-!
# What rejections count

A round trip is checked in three ways, and one that fails several checks is counted by each. So the
three counts add up to the number of removed round trips at least, and to three times as many at most.
A check is failed by a span of some stage, be it a crypto stage or not. Which readings fail a check is
left to the arithmetic: nothing is asked of it, so a reading that is no number may fail one check and
pass the other two.
-/

namespace EnergyProfile

set_option autoImplicit false

variable {α : Type} [Scalar α]

open Scalar

/-- What the readings of a round trip are checked for. -/
inductive Check where
  | nonFinite
  | zero
  | startAfterEnd

def Defects.failed (d : Defects) : Check → Bool
  | .nonFinite => d.nonFinite
  | .zero => d.zero
  | .startAfterEnd => d.startAfterEnd

def Rejections.count (counts : Rejections) : Check → Nat
  | .nonFinite => counts.nonFinite
  | .zero => counts.zero
  | .startAfterEnd => counts.startAfterEnd

/-- One of the two readings of a span, or their order, fails a check. -/
def ClockSpan.Fails (s : ClockSpan α) : Check → Prop
  | .nonFinite => isFinite s.start = false ∨ isFinite s.stop = false
  | .zero => equal s.start (ofNat 0) = true ∨ equal s.stop (ofNat 0) = true
  | .startAfterEnd => less s.stop s.start = true

namespace RoundTrip

/-- The span of some stage fails a check. -/
def Fails (r : RoundTrip α) (check : Check) : Prop :=
  ∃ stage s, r.span? stage = some s ∧ s.Fails check

def Valid (r : RoundTrip α) : Prop := ∀ check, ¬ r.Fails check

theorem fails_iff_exists_mem (r : RoundTrip α) (check : Check) :
    r.Fails check ↔ ∃ s ∈ r.spans, s.Fails check := by
  constructor
  · rintro ⟨stage, s, hspan, hs⟩
    exact ⟨s, (mem_spans_iff r s).mpr ⟨stage, hspan⟩, hs⟩
  · rintro ⟨s, hmem, hs⟩
    obtain ⟨stage, hspan⟩ := (mem_spans_iff r s).mp hmem
    exact ⟨stage, s, hspan, hs⟩

theorem failed_defects_iff (r : RoundTrip α) (check : Check) :
    r.defects.failed check = true ↔ r.Fails check := by
  rw [fails_iff_exists_mem]
  cases check <;> simp [Defects.failed, defects, ClockSpan.Fails]

theorem isClean_defects_iff (r : RoundTrip α) : r.defects.isClean = true ↔ r.Valid := by
  have hfailed : r.Valid ↔ ∀ check, r.defects.failed check = false := by
    apply forall_congr'
    intro check
    rw [← failed_defects_iff, Bool.not_eq_true]
  rw [hfailed, Defects.isClean, Bool.not_eq_true', Bool.or_eq_false_iff, Bool.or_eq_false_iff]
  constructor
  · rintro ⟨⟨hfinite, hzero⟩, horder⟩ check
    cases check with
    | nonFinite => exact hfinite
    | zero => exact hzero
    | startAfterEnd => exact horder
  · intro h
    exact ⟨⟨h .nonFinite, h .zero⟩, h .startAfterEnd⟩

theorem isClean_iff_forall_mem (r : RoundTrip α) : r.defects.isClean = true ↔
    ∀ s ∈ r.spans, (isFinite s.start = true ∧ isFinite s.stop = true) ∧
      (equal s.start (ofNat 0) = false ∧ equal s.stop (ofNat 0) = false) ∧
        less s.stop s.start = false := by
  simp only [isClean_defects_iff, Valid, fails_iff_exists_mem, not_exists, not_and]
  constructor
  · intro h s hs
    have hfinite := h .nonFinite s hs
    have hzero := h .zero s hs
    have horder := h .startAfterEnd s hs
    simp only [ClockSpan.Fails, not_or, Bool.not_eq_true, Bool.not_eq_false] at hfinite hzero horder
    exact ⟨hfinite, hzero, horder⟩
  · intro h check s hs
    obtain ⟨hfinite, hzero, horder⟩ := h s hs
    cases check <;> simp [ClockSpan.Fails, hfinite, hzero, horder]

instance (r : RoundTrip α) (check : Check) : Decidable (r.Fails check) :=
  decidable_of_iff _ (failed_defects_iff r check)

instance (r : RoundTrip α) : Decidable r.Valid :=
  decidable_of_iff _ (isClean_defects_iff r)

end RoundTrip

variable {trips : List (RoundTrip α)}

theorem kept_filterValid (trips : List (RoundTrip α)) :
    (filterValid trips).2.kept = (filterValid trips).1.length := rfl

theorem kept_add_removed_filterValid (trips : List (RoundTrip α)) :
    (filterValid trips).2.kept + (filterValid trips).2.removed = trips.length :=
  Nat.add_sub_cancel' (List.length_filter_le _ _)

theorem filterValid_eq_filter (trips : List (RoundTrip α)) :
    (filterValid trips).1 = trips.filter fun r => r.Valid := by
  apply List.filter_congr
  intro r _
  rw [Bool.eq_iff_iff, RoundTrip.isClean_defects_iff, decide_eq_true_iff]

theorem count_filterValid (trips : List (RoundTrip α)) (check : Check) :
    (filterValid trips).2.count check = trips.countP fun r => r.Fails check := by
  have hfailed : (filterValid trips).2.count check =
      trips.countP fun r => r.defects.failed check := by
    cases check <;> rfl
  rw [hfailed]
  apply List.countP_congr
  intro r _
  rw [RoundTrip.failed_defects_iff, decide_eq_true_iff]

theorem removed_filterValid (trips : List (RoundTrip α)) :
    (filterValid trips).2.removed = trips.countP fun r => ¬ r.Valid := by
  have hsplit := List.length_eq_countP_add_countP (fun r : RoundTrip α => decide r.Valid)
    (l := trips)
  have htotal := kept_add_removed_filterValid trips
  rw [kept_filterValid, filterValid_eq_filter, ← List.countP_eq_length_filter] at htotal
  simp only [decide_eq_true_iff] at hsplit
  omega

theorem count_le_removed (trips : List (RoundTrip α)) (check : Check) :
    (filterValid trips).2.count check ≤ (filterValid trips).2.removed := by
  rw [count_filterValid, removed_filterValid]
  apply List.countP_mono_left
  intro r _ hfails
  rw [decide_eq_true_iff] at hfails ⊢
  intro hvalid
  exact hvalid check hfails

theorem removed_le_counts (trips : List (RoundTrip α)) :
    (filterValid trips).2.removed ≤ (filterValid trips).2.count .nonFinite +
      (filterValid trips).2.count .zero + (filterValid trips).2.count .startAfterEnd := by
  rw [removed_filterValid, count_filterValid, count_filterValid, count_filterValid]
  induction trips with
  | nil => exact Nat.zero_le _
  | cons r trips ih =>
    simp only [List.countP_cons, decide_eq_true_iff]
    by_cases hvalid : r.Valid
    · rw [if_neg (not_not.mpr hvalid)]
      omega
    · obtain ⟨check, hfails⟩ := not_forall_not.mp hvalid
      rw [if_pos hvalid]
      cases check <;> rw [if_pos hfails] <;> omega

theorem filterValid_perm {other : List (RoundTrip α)} (h : other.Perm trips) :
    (filterValid other).2 = (filterValid trips).2 := by
  simp only [filterValid, h.length_eq, (h.filter _).length_eq, h.countP_eq]

theorem filterValid_of_valid (h : ∀ r ∈ trips, r.Valid) :
    filterValid trips = (trips, ⟨trips.length, 0, 0, 0, 0⟩) := by
  have hkept : (filterValid trips).1 = trips := by
    rw [filterValid_eq_filter, List.filter_eq_self]
    intro r hr
    exact decide_eq_true (h r hr)
  have hlength : (filterValid trips).2.kept = trips.length := by
    rw [kept_filterValid, hkept]
  have hremoved : (filterValid trips).2.removed = 0 := by
    have htotal := kept_add_removed_filterValid trips
    omega
  have hcount (check : Check) : (filterValid trips).2.count check = 0 :=
    Nat.le_zero.mp (hremoved ▸ count_le_removed trips check)
  have hcounts : (filterValid trips).2 = ⟨trips.length, 0, 0, 0, 0⟩ :=
    (Rejections.mk.injEq ..).mpr
      ⟨hlength, hremoved, hcount .nonFinite, hcount .zero, hcount .startAfterEnd⟩
  exact Prod.ext hkept hcounts

/-- The round trips that are kept of a list are the valid ones in their order, and the counts tell how
many fail each check and how many fail any. The counts do not depend on the order of the list, and
what is kept is not thinned out any further. -/
structure Sifted (trips kept : List (RoundTrip α)) (counts : Rejections) : Prop where
  valid : kept = trips.filter fun r => r.Valid
  length : counts.kept = kept.length
  total : counts.kept + counts.removed = trips.length
  failing : ∀ check, counts.count check = trips.countP fun r => r.Fails check
  le_removed : max (max counts.nonFinite counts.zero) counts.startAfterEnd ≤ counts.removed
  removed_le : counts.removed ≤ counts.nonFinite + counts.zero + counts.startAfterEnd
  le_thrice : counts.nonFinite + counts.zero + counts.startAfterEnd ≤ 3 * counts.removed
  unordered : ∀ other, other.Perm trips → (filterValid other).2 = counts
  again : filterValid kept = (kept, ⟨kept.length, 0, 0, 0, 0⟩)

theorem filterValid_sifted (trips : List (RoundTrip α)) :
    Sifted trips (filterValid trips).1 (filterValid trips).2 := by
  have hnonFinite := count_le_removed trips .nonFinite
  have hzero := count_le_removed trips .zero
  have horder := count_le_removed trips .startAfterEnd
  have hremoved := removed_le_counts trips
  simp only [Rejections.count] at hnonFinite hzero horder hremoved
  constructor
  · exact filterValid_eq_filter trips
  · exact kept_filterValid trips
  · exact kept_add_removed_filterValid trips
  · exact count_filterValid trips
  · exact Nat.max_le.mpr ⟨Nat.max_le.mpr ⟨hnonFinite, hzero⟩, horder⟩
  · exact hremoved
  · omega
  · intro other hother
    exact filterValid_perm hother
  · apply filterValid_of_valid
    intro r hr
    rw [filterValid_eq_filter] at hr
    exact of_decide_eq_true (List.mem_filter.mp hr).2

end EnergyProfile
