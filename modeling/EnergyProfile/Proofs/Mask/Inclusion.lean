import EnergyProfile.Proofs.Mask.Closing
import EnergyProfile.Proofs.Mask.Upsampling
import EnergyProfile.Proofs.Run.Partition
import Mathlib.Data.Finset.Card

/-!
# Masks that include one another

A mask includes another one if it is high wherever that is. Closing and upsampling keep inclusions,
and a longer closing window gives a mask that includes that of a shorter one. A stretch of the
smaller mask lies inside a stretch of the larger one; there may be more or fewer of these. A closing
only joins stretches: each one still begins with a sample that was high before.
-/

namespace EnergyProfile

set_option autoImplicit false

namespace Mask

/-- Every high sample of a mask is high in another one. -/
def Within (m m' : Mask) : Prop :=
  ∀ i, m.High i → m'.High i

variable {m m' : Mask} {window window' : Nat}

theorem Within.refl (m : Mask) : m.Within m := fun _ hi => hi

theorem Within.eq (hlength : m.length = m'.length) (h : m.Within m') (h' : m'.Within m) :
    m = m' := by
  refine List.ext_getElem hlength fun i hi hi' => ?_
  have hiff : m.High i ↔ m'.High i := ⟨h i, h' i⟩
  simp only [High, List.getElem?_eq_getElem hi, List.getElem?_eq_getElem hi', Option.some.injEq]
    at hiff
  exact Bool.eq_iff_iff.mpr hiff

theorem Within.highCount_le (h : m.Within m') : m.highCount ≤ m'.highCount := by
  induction m generalizing m' with
  | nil => exact Nat.zero_le _
  | cons state m ih =>
    cases m' with
    | nil =>
      have hnone (i : Nat) : ¬ High (state :: m) i := fun hi => by simpa [High] using h i hi
      have hzero : (state :: m).count true = 0 := by
        refine List.count_eq_zero.mpr fun hmem => ?_
        obtain ⟨i, hi⟩ := List.mem_iff_getElem?.mp hmem
        exact hnone i hi
      exact Nat.le_of_eq hzero
    | cons state' m' =>
      have hwithin : Within m m' := fun i hi => h (i + 1) hi
      have hrest := ih hwithin
      have hfirst : state = true → state' = true := by simpa [High] using h 0
      unfold highCount at hrest ⊢
      rw [List.count_cons, List.count_cons]
      cases state with
      | false => simpa using Nat.le_add_right_of_le hrest
      | true => simpa [hfirst rfl] using hrest

theorem threshold_within {α : Type} [Scalar α] (signal : List α) {limit limit' : α}
    (h : ∀ x, Scalar.less limit' x → Scalar.less limit x) :
    (threshold signal limit').Within (threshold signal limit) := by
  intro i hi
  simp only [High, threshold, List.getElem?_map, Option.map_eq_some_iff] at hi ⊢
  obtain ⟨x, hx, hless⟩ := hi
  exact ⟨x, hx, h x hless⟩

theorem Within.closeGaps (h : m.Within m') (hlength : m.length = m'.length) (window : Nat) :
    (m.closeGaps window).Within (m'.closeGaps window) := by
  intro i hi
  rw [high_closeGaps_iff] at hi ⊢
  obtain ⟨hi, hall⟩ := hi
  refine ⟨hlength ▸ hi, fun stop hstart hstop => ?_⟩
  obtain ⟨k, hk, hlt, hle⟩ := hall stop hstart hstop
  exact ⟨k, h k hk, hlt, hle⟩

theorem within_closeGaps (m : Mask) (window : Nat) : m.Within (m.closeGaps window) := by
  intro i hi
  exact (high_closeGaps_iff m window i).mpr
    ⟨hi.lt_length, fun stop hstart hstop => ⟨i, hi, hstart, hstop⟩⟩

/-- A longer window closes whatever a shorter one does. -/
theorem closeGaps_within (m : Mask) (h : window ≤ window') :
    (m.closeGaps window).Within (m.closeGaps window') := by
  intro i hi
  rw [high_closeGaps_iff] at hi ⊢
  obtain ⟨hi, hall⟩ := hi
  refine ⟨hi, fun stop hstart hstop => ?_⟩
  obtain ⟨k, hk, hlt, hle⟩ := hall (min stop (i + max window 1)) (by omega) (by omega)
  exact ⟨k, hk, by omega, by omega⟩

theorem Within.upsample (h : m.Within m') (hlength : m.length = m'.length) (q length : Nat) :
    (m.upsample q length).Within (m'.upsample q length) := by
  intro i hi
  have hlt : i < length := by simpa using hi.lt_length
  have hstate (m : Mask) (j : Nat) : m[j]?.getD false = true ↔ m.High j := by
    cases hj : m[j]? <;> simp [High, hj]
  simp only [High, getElem?_upsample _ _ hlt, Option.some.injEq, hstate, ← hlength] at hi ⊢
  exact h _ hi

/-- The stretches of a mask lie inside those of a mask that includes it. -/
theorem Within.exists_stretch (h : m.Within m') {s : Span} (hs : Stretch m true s) :
    ∃ t, Stretch m' true t ∧ t.start ≤ s.start ∧ s.stop ≤ t.stop := by
  have hne := hs.nonempty
  obtain ⟨t, ht, hstart, hstop⟩ := exists_stretch_at (h _ (hs.uniform s.start (Nat.le_refl _) hne))
  refine ⟨t, ht, hstart, ?_⟩
  by_contra hlt
  exact ht.after (h _ (hs.uniform t.stop (by omega) (by omega)))

theorem nodup_spans (m : Mask) : m.spans.Nodup := by
  refine m.laidOut_spans.pairwise.imp_of_mem fun hs _ hle heq => ?_
  have := (m.laidOut_spans.mem hs).1
  subst heq
  omega

/-- Where every stretch of the larger mask holds a high sample of the smaller one, it has no more
stretches: each holds one of those of the smaller mask. -/
theorem Within.length_spans_le (h : m.Within m')
    (hmeet : ∀ t, Stretch m' true t → ∃ i, t.start ≤ i ∧ i < t.stop ∧ m.High i) :
    m'.spans.length ≤ m.spans.length := by
  classical
  have hinside : ∀ t ∈ m'.spans.toFinset, ∃ s ∈ m.spans.toFinset,
      s.start < s.stop ∧ t.start ≤ s.start ∧ s.stop ≤ t.stop := by
    intro t ht
    have ht := (mem_spans_iff m' t).mp (List.mem_toFinset.mp ht)
    obtain ⟨i, hstart, hstop, hi⟩ := hmeet t ht
    obtain ⟨s, hs, hsi, hsi'⟩ := exists_stretch_at hi
    obtain ⟨t', ht', hle, hle'⟩ := h.exists_stretch hs
    obtain rfl := ht'.eq_of_mem ht ⟨hle.trans hsi, by omega⟩ ⟨hstart, hstop⟩
    exact ⟨s, List.mem_toFinset.mpr ((mem_spans_iff m s).mpr hs), hs.nonempty, hle, hle'⟩
  choose! part hpart using hinside
  have hinjective : Set.InjOn part (m'.spans.toFinset : Set Span) := by
    intro t ht t' ht' heq
    obtain ⟨_, hne, hstart, hstop⟩ := hpart t ht
    obtain ⟨_, _, hstart', hstop'⟩ := hpart t' ht'
    rw [← heq] at hstart' hstop'
    exact ((mem_spans_iff m' t).mp (List.mem_toFinset.mp ht)).eq_of_mem
      ((mem_spans_iff m' t').mp (List.mem_toFinset.mp ht')) ⟨hstart, by omega⟩ ⟨hstart', by omega⟩
  have hcard := Finset.card_le_card_of_injOn part (fun t ht => (hpart t ht).1) hinjective
  rw [List.toFinset_card_of_nodup m'.nodup_spans] at hcard
  exact hcard.trans (List.toFinset_card_le _)

/-- A closing does not begin a stretch: its first sample was high before. -/
theorem high_of_closeGaps {i : Nat} (hi : (m.closeGaps window).High i)
    (hbefore : i = 0 ∨ ¬ (m.closeGaps window).High (i - 1)) : m.High i := by
  obtain ⟨hlt, hall⟩ := (high_closeGaps_iff m window i).mp hi
  obtain ⟨k, hk, hki, hik⟩ := hall (i + 1) (by omega) (by omega)
  by_contra hlow
  have hne : k ≠ i := fun h => hlow (h ▸ hk)
  refine hbefore.resolve_left (by omega) ((high_closeGaps_iff m window (i - 1)).mpr
    ⟨by omega, fun stop hstart hstop => ?_⟩)
  by_cases hstop' : stop = i
  · exact ⟨k, hk, by omega, by omega⟩
  · exact hall stop (by omega) (by omega)

theorem Stretch.high_start_of_closeGaps {q length : Nat} {t : Span} (hq : 0 < q)
    (hcover : length ≤ m.length * q)
    (ht : Stretch ((m.closeGaps window).upsample q length) true t) :
    (m.upsample q length).High t.start := by
  have hcover' : length ≤ (m.closeGaps window).length * q := by rwa [length_closeGaps]
  have hlt : t.start < length := by
    have hstop := ht.stop_le
    have hne := ht.nonempty
    rw [length_upsample] at hstop
    omega
  have hstate {i : Nat} (hi : i < length) :
      ((m.closeGaps window).upsample q length).High i ↔ (m.closeGaps window).High (i / q) := by
    rw [High, getElem?_upsample_of_covered hq hcover' hi, High]
  obtain ⟨block, hblock⟩ := ht.dvd_start hq hcover'
  have hdiv : t.start / q = block := by rw [hblock, Nat.mul_div_cancel_left _ hq]
  have hfirst := ht.uniform t.start (Nat.le_refl _) ht.nonempty
  rw [High, getElem?_upsample_of_covered hq hcover hlt]
  refine high_of_closeGaps ((hstate hlt).mp hfirst) ?_
  rcases ht.before with hzero | hbefore
  · left
    rw [hzero, Nat.zero_div]
  · by_cases hpos : block = 0
    · exact Or.inl (hdiv.trans hpos)
    · right
      have hprevious : (t.start - 1) / q = block - 1 := by
        rw [hblock, Nat.mul_sub_div 0 q block (Nat.mul_pos hq (Nat.pos_of_ne_zero hpos)),
          Nat.zero_div]
      rw [hdiv, ← hprevious]
      exact fun hhigh => hbefore ((hstate (by omega)).mpr hhigh)

end Mask

end EnergyProfile
