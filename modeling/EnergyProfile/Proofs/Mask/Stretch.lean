import EnergyProfile.Mask
import Mathlib.Data.Nat.Find
import Mathlib.Tactic.ByContra

/-!
# Stretches of a mask

A mask is read on the unbounded line: outside its samples nothing is high. A stretch is a maximal
row of samples in one state, and a gap is a low stretch with high samples on both sides.
-/

namespace EnergyProfile.Mask

set_option autoImplicit false

/-- The sample at a position is high. None is beyond the end. -/
def High (m : Mask) (i : Nat) : Prop := m[i]? = some true

/-- The sample at a position is there and low. -/
def Low (m : Mask) (i : Nat) : Prop := m[i]? = some false

theorem High.lt_length {m : Mask} {i : Nat} (h : m.High i) : i < m.length :=
  (List.getElem?_eq_some_iff.mp h).1

theorem Low.lt_length {m : Mask} {i : Nat} (h : m.Low i) : i < m.length :=
  (List.getElem?_eq_some_iff.mp h).1

theorem low_iff_not_high {m : Mask} {i : Nat} (hi : i < m.length) : m.Low i ↔ ¬ m.High i := by
  simp [Low, High, List.getElem?_eq_getElem hi]

theorem Low.not_high {m : Mask} {i : Nat} (h : m.Low i) : ¬ m.High i :=
  (low_iff_not_high h.lt_length).mp h

/-- A maximal row of samples in one state. -/
structure Stretch (m : Mask) (state : Bool) (s : Span) : Prop where
  nonempty : s.start < s.stop
  uniform : ∀ i, s.start ≤ i → i < s.stop → m[i]? = some state
  before : s.start = 0 ∨ m[s.start - 1]? ≠ some state
  after : m[s.stop]? ≠ some state

/-- A low stretch with high samples on both sides. -/
structure Gap (m : Mask) (s : Span) : Prop extends Stretch m false s where
  start_pos : 0 < s.start
  stop_lt : s.stop < m.length

theorem Stretch.stop_le {m : Mask} {state : Bool} {s : Span} (h : Stretch m state s) :
    s.stop ≤ m.length := by
  have hstart := h.nonempty
  have hlast := h.uniform (s.stop - 1) (by omega) (by omega)
  have := (List.getElem?_eq_some_iff.mp hlast).1
  omega

theorem exists_stretch_at {m : Mask} {state : Bool} {i : Nat} (h : m[i]? = some state) :
    ∃ s, Stretch m state s ∧ s.start ≤ i ∧ i < s.stop := by
  classical
  have hbegin : ∃ j, j ≤ i ∧ ∀ k, j ≤ k → k ≤ i → m[k]? = some state :=
    ⟨i, Nat.le_refl i, fun k hk hk' => Nat.le_antisymm hk hk' ▸ h⟩
  have hend : ∃ j, i < j ∧ m[j]? ≠ some state :=
    ⟨m.length, (List.getElem?_eq_some_iff.mp h).1, by simp⟩
  obtain ⟨hle, huniform⟩ := Nat.find_spec hbegin
  obtain ⟨hlt, hafter⟩ := Nat.find_spec hend
  refine ⟨⟨Nat.find hbegin, Nat.find hend⟩,
    ⟨Nat.lt_of_le_of_lt hle hlt, fun k hk hk' => ?_, ?_, hafter⟩, hle, hlt⟩
  · by_cases hki : k ≤ i
    · exact huniform k hk hki
    · have := Nat.find_min hend hk'
      rw [not_and, Classical.not_not] at this
      exact this (by omega)
  · by_contra hbefore
    simp only [not_or, Classical.not_not] at hbefore
    obtain ⟨hpos, hprevious⟩ := hbefore
    refine Nat.find_min hbegin (Nat.sub_one_lt hpos) ⟨by omega, fun k hk hk' => ?_⟩
    by_cases heq : k = Nat.find hbegin - 1
    · exact heq ▸ hprevious
    · exact huniform k (by omega) hk'

theorem Stretch.eq_of_mem {m : Mask} {state : Bool} {s t : Span} (hs : Stretch m state s)
    (ht : Stretch m state t) {i : Nat} (hsi : s.start ≤ i ∧ i < s.stop)
    (hti : t.start ≤ i ∧ i < t.stop) : s = t := by
  have hstart {s t : Span} (hs : Stretch m state s) (ht : Stretch m state t)
      (hsi : s.start ≤ i ∧ i < s.stop) (hti : t.start ≤ i ∧ i < t.stop) :
      t.start ≤ s.start := by
    by_contra hlt
    exact (ht.before.resolve_left (by omega)) (hs.uniform (t.start - 1) (by omega) (by omega))
  have hstop {s t : Span} (hs : Stretch m state s) (ht : Stretch m state t)
      (hsi : s.start ≤ i ∧ i < s.stop) (hti : t.start ≤ i ∧ i < t.stop) :
      s.stop ≤ t.stop := by
    by_contra hlt
    exact ht.after (hs.uniform t.stop (by omega) (by omega))
  have := hstart hs ht hsi hti
  have := hstart ht hs hti hsi
  have := hstop hs ht hsi hti
  have := hstop ht hs hti hsi
  cases s
  cases t
  simp_all only [Span.mk.injEq]
  omega

namespace Gap

variable {m : Mask} {s : Span}

theorem low (h : Gap m s) {i : Nat} (hstart : s.start ≤ i) (hstop : i < s.stop) : m.Low i :=
  h.uniform i hstart hstop

theorem high_before (h : Gap m s) : m.High (s.start - 1) := by
  have hne := h.nonempty
  have hlt := h.stop_lt
  have hlow : ¬ m.Low (s.start - 1) := h.before.resolve_left (Nat.pos_iff_ne_zero.mp h.start_pos)
  rw [low_iff_not_high (by omega)] at hlow
  exact Classical.not_not.mp hlow

theorem high_after (h : Gap m s) : m.High s.stop := by
  have hlow : ¬ m.Low s.stop := h.after
  rw [low_iff_not_high h.stop_lt] at hlow
  exact Classical.not_not.mp hlow

end Gap

end EnergyProfile.Mask
