import EnergyProfile.Proofs.Mask.Stretch
import Mathlib.Data.List.Chain

/-!
# The spans of a mask

The scan for spans finds exactly the high stretches of a mask, from left to right, with a gap
between each two neighbours.
-/

namespace EnergyProfile.Mask

set_option autoImplicit false

/-- The scan has read the first `i` samples of a mask: the sample before `i` is high exactly if a
stretch has begun, and then all samples since its start are. -/
structure Scan (m : Mask) (i : Nat) (began : Option Nat) (rest : Mask) : Prop where
  rest_eq : m.drop i = rest
  start_le : began.getD i ≤ i
  high : ∀ j, began.getD i ≤ j → j < i → m.High j
  before : began.getD i = 0 ∨ ¬ m.High (began.getD i - 1)
  begun : ∀ start, began = some start → start < i

namespace Scan

variable {m rest : Mask} {i : Nat} {began : Option Nat} {state : Bool}

theorem start (m : Mask) : Scan m 0 none m :=
  ⟨rfl, Nat.le_refl _, fun _ _ h => absurd h (Nat.not_lt_zero _), Or.inl rfl, by simp⟩

theorem head (h : Scan m i began (state :: rest)) : m[i]? = some state := by
  rw [← List.head?_drop, h.rest_eq]
  rfl

theorem drop_succ (h : Scan m i began (state :: rest)) : m.drop (i + 1) = rest := by
  rw [← List.tail_drop, h.rest_eq]
  rfl

theorem step_high (h : Scan m i began (true :: rest)) :
    Scan m (i + 1) (some (began.getD i)) rest where
  rest_eq := h.drop_succ
  start_le := Nat.le_succ_of_le h.start_le
  high j hj hi := by
    rcases Nat.eq_or_lt_of_le (Nat.lt_succ_iff.mp hi) with rfl | hlt
    · exact h.head
    · exact h.high j hj hlt
  before := h.before
  begun start hstart := by
    obtain rfl := Option.some.inj hstart
    exact Nat.lt_succ_of_le h.start_le

theorem step_low (h : Scan m i began (false :: rest)) : Scan m (i + 1) none rest where
  rest_eq := h.drop_succ
  start_le := Nat.le_refl _
  high j hj hi := absurd hi (Nat.not_lt.mpr hj)
  before := Or.inr (Low.not_high h.head)
  begun := by simp

/-- Where the samples since `start` end to be high, they are a stretch. -/
theorem stretch {start : Nat} (h : Scan m i (some start) rest) (hend : ¬ m.High i) :
    Stretch m true ⟨start, i⟩ :=
  ⟨h.begun start rfl, h.high, h.before, hend⟩

/-- No other stretch begins among the samples since `start`. -/
theorem eq_of_start_lt {start : Nat} {s : Span} (h : Scan m i (some start) rest)
    (hend : ¬ m.High i) (hs : Stretch m true s) (hle : start ≤ s.start) (hlt : s.start < i) :
    s = ⟨start, i⟩ :=
  hs.eq_of_mem (h.stretch hend) ⟨Nat.le_refl _, hs.nonempty⟩ ⟨hle, hlt⟩

theorem not_high_end (h : Scan m i began []) : ¬ m.High i := by
  intro hhigh
  have hlt := hhigh.lt_length
  have hle := List.drop_eq_nil_iff.mp h.rest_eq
  omega

end Scan

theorem spansFrom_high (i : Nat) (began : Option Nat) (rest : Mask) :
    spansFrom i began (true :: rest) = spansFrom (i + 1) (some (began.getD i)) rest := by
  cases began <;> rfl

/-- From a position on, the scan finds the high stretches that end beyond it. -/
theorem Scan.mem_spansFrom_iff {m rest : Mask} {i : Nat} {began : Option Nat}
    (h : Scan m i began rest) (s : Span) :
    s ∈ spansFrom i began rest ↔ Stretch m true s ∧ began.getD i ≤ s.start := by
  induction rest generalizing i began with
  | nil =>
    have hend := h.not_high_end
    have hlt (hs : Stretch m true s) : s.start < i := by
      have hlength := List.drop_eq_nil_iff.mp h.rest_eq
      have := hs.stop_le
      have := hs.nonempty
      omega
    cases began with
    | none =>
      simp only [spansFrom, List.not_mem_nil, Option.getD_none, false_iff, not_and]
      exact fun hs hle => absurd (hlt hs) (Nat.not_lt.mpr hle)
    | some start =>
      simp only [spansFrom, List.mem_singleton, Option.getD_some]
      constructor
      · rintro rfl
        exact ⟨h.stretch hend, Nat.le_refl _⟩
      · rintro ⟨hs, hle⟩
        exact h.eq_of_start_lt hend hs hle (hlt hs)
  | cons state rest ih =>
    cases state with
    | true =>
      rw [spansFrom_high]
      exact ih h.step_high
    | false =>
      have hlow : ¬ m.High i := Low.not_high h.head
      have hnext (hs : Stretch m true s) : i ≤ s.start ↔ i + 1 ≤ s.start := by
        refine ⟨fun hle => Nat.lt_of_le_of_ne hle fun heq => ?_, Nat.le_of_succ_le⟩
        exact hlow (heq ▸ hs.uniform s.start (Nat.le_refl _) hs.nonempty)
      have ih := ih h.step_low
      rw [Option.getD_none] at ih
      cases began with
      | none =>
        rw [spansFrom, ih, Option.getD_none]
        exact and_congr_right fun hs => (hnext hs).symm
      | some start =>
        rw [spansFrom, List.mem_cons, ih, Option.getD_some]
        constructor
        · rintro (rfl | ⟨hs, hle⟩)
          · exact ⟨h.stretch hlow, Nat.le_refl _⟩
          · have := h.begun start rfl
            exact ⟨hs, by omega⟩
        · rintro ⟨hs, hle⟩
          by_cases hlt : s.start < i
          · exact Or.inl (h.eq_of_start_lt hlow hs hle hlt)
          · exact Or.inr ⟨hs, (hnext hs).mp (Nat.le_of_not_lt hlt)⟩

theorem mem_spans_iff (m : Mask) (s : Span) : s ∈ m.spans ↔ Stretch m true s := by
  simpa [spans] using (Scan.start m).mem_spansFrom_iff s

/-- Between two neighbours lies a gap, and what has been read before the first span is low. -/
theorem Scan.isChain_spansFrom {m rest : Mask} {i : Nat} {began : Option Nat}
    (h : Scan m i began rest) :
    (spansFrom i began rest).IsChain (fun s t => Gap m ⟨s.stop, t.start⟩) ∧
      ∀ t ∈ (spansFrom i began rest).head?, ∀ j, began.getD i ≤ j → j < t.start → m.Low j := by
  induction rest generalizing i began with
  | nil =>
    cases began with
    | none => simp [spansFrom]
    | some start =>
      simp only [spansFrom, List.IsChain.singleton, List.head?_cons, Option.mem_def,
        Option.some.injEq, true_and]
      rintro t rfl j hj hj'
      exact absurd hj' (Nat.not_lt.mpr hj)
  | cons state rest ih =>
    cases state with
    | true =>
      rw [spansFrom_high]
      exact ih h.step_high
    | false =>
      obtain ⟨hchain, hbefore⟩ := ih h.step_low
      rw [Option.getD_none] at hbefore
      have hlow (t : Span) (ht : t ∈ (spansFrom (i + 1) none rest).head?) (j : Nat) (hj : i ≤ j)
          (hj' : j < t.start) : m.Low j := by
        rcases Nat.eq_or_lt_of_le hj with rfl | hlt
        · exact h.head
        · exact hbefore t ht j hlt hj'
      cases began with
      | none => exact ⟨hchain, hlow⟩
      | some start =>
        have hbegun := h.begun start rfl
        refine ⟨List.isChain_cons.mpr ⟨fun t ht => ?_, hchain⟩, ?_⟩
        · obtain ⟨hs, hle⟩ :=
            (h.step_low.mem_spansFrom_iff t).mp (List.mem_of_mem_head? ht)
          have hhigh : m.High t.start := hs.uniform t.start (Nat.le_refl _) hs.nonempty
          refine ⟨⟨hle, hlow t ht, Or.inr ?_, ?_⟩, Nat.lt_of_le_of_lt (Nat.zero_le _) hbegun,
            hhigh.lt_length⟩
          · exact fun hl => Low.not_high hl (h.high (i - 1) (by simp; omega) (by omega))
          · exact fun hl => Low.not_high hl hhigh
        · simp only [spansFrom, List.head?_cons, Option.mem_def, Option.some.injEq]
          rintro t rfl j hj hj'
          exact absurd hj' (Nat.not_lt.mpr hj)

theorem isChain_spans (m : Mask) :
    m.spans.IsChain (fun s t => Gap m ⟨s.stop, t.start⟩) :=
  (Scan.start m).isChain_spansFrom.1

end EnergyProfile.Mask
