import EnergyProfile.Analysis
import EnergyProfile.Proofs.Mask.Spans
import EnergyProfile.Proofs.Segmentation.Stages
import Mathlib.Algebra.GroupWithZero.Nat

/-!
# Runs and the samples they cover

The runs of a mask lie one after another inside the trace, so the summaries of a channel over them
exist. What they cover, joined in order, is the list of high samples: none is lost at the border of
a run and none is counted twice.
-/

namespace EnergyProfile

set_option autoImplicit false

/-- The spans follow one another from a position on, and the last one stops in time. -/
def LaidOut (length : Nat) : (position : Nat) → List Span → Prop
  | position, [] => position ≤ length
  | position, s :: rest => position ≤ s.start ∧ s.start < s.stop ∧ LaidOut length s.stop rest

theorem LaidOut.position_le {length position : Nat} {spans : List Span}
    (h : LaidOut length position spans) : position ≤ length := by
  induction spans generalizing position with
  | nil => exact h
  | cons s rest ih =>
    obtain ⟨hstart, hlt, hrest⟩ := h
    have := ih hrest
    omega

theorem LaidOut.mem {length position : Nat} {spans : List Span} (h : LaidOut length position spans)
    {s : Span} (hs : s ∈ spans) : s.start < s.stop ∧ s.stop ≤ length := by
  induction spans generalizing position with
  | nil => cases hs
  | cons t rest ih =>
    obtain ⟨_, hlt, hrest⟩ := h
    rcases List.mem_cons.mp hs with rfl | hs
    · exact ⟨hlt, hrest.position_le⟩
    · exact ih hrest hs

theorem LaidOut.pairwise {length position : Nat} {spans : List Span}
    (h : LaidOut length position spans) : spans.Pairwise fun s t => s.stop ≤ t.start := by
  have hafter {position : Nat} {spans : List Span} (h : LaidOut length position spans) :
      ∀ s ∈ spans, position ≤ s.start := by
    induction spans generalizing position with
    | nil => simp
    | cons s rest ih =>
      obtain ⟨hstart, hlt, hrest⟩ := h
      refine List.forall_mem_cons.mpr ⟨hstart, fun t ht => ?_⟩
      have := ih hrest t ht
      omega
  induction spans generalizing position with
  | nil => exact .nil
  | cons s rest ih => exact .cons (hafter h.2.2) (ih h.2.2)

theorem Mask.laidOut_spansFrom (i : Nat) (began : Option Nat) (rest : Mask)
    (hbegan : ∀ start, began = some start → start < i) :
    LaidOut (i + rest.length) (began.getD i) (spansFrom i began rest) := by
  induction rest generalizing i began with
  | nil =>
    cases began with
    | none => exact Nat.le_refl i
    | some start => exact ⟨Nat.le_refl _, hbegan start rfl, Nat.le_refl i⟩
  | cons state rest ih =>
    have hlength : i + (state :: rest).length = i + 1 + rest.length := by
      rw [List.length_cons]
      omega
    rw [hlength]
    cases state with
    | true =>
      rw [spansFrom_high]
      refine ih (i + 1) (some (began.getD i)) fun start hstart => ?_
      obtain rfl := Option.some.inj hstart
      cases began with
      | none => exact Nat.lt_succ_self i
      | some first => exact Nat.lt_succ_of_lt (hbegan first rfl)
    | false =>
      have hrest := ih (i + 1) none (by simp)
      have hwiden : LaidOut (i + 1 + rest.length) i (spansFrom (i + 1) none rest) := by
        cases hspans : spansFrom (i + 1) none rest with
        | nil => exact Nat.le_of_lt (Nat.lt_of_lt_of_le (Nat.lt_succ_self i) (Nat.le_add_right _ _))
        | cons s others =>
          rw [hspans] at hrest
          exact ⟨Nat.le_of_succ_le hrest.1, hrest.2⟩
      cases began with
      | none => exact hwiden
      | some start => exact ⟨Nat.le_refl _, hbegan start rfl, hwiden⟩

theorem Mask.laidOut_spans (m : Mask) : LaidOut m.length 0 m.spans := by
  simpa [spans] using laidOut_spansFrom 0 none m (by simp)

theorem runsFault?_eq_none_iff {α : Type} {size : Nat} {runs : List (Run α)} {flags : Mask} :
    runsFault? size runs flags = none ↔
      flags.length = size ∧ ∀ r ∈ runs, r.stop ≤ size ∧ r.start ≤ r.stop := by
  simp only [runsFault?]
  split
  · rename_i h
    simp [h]
  · rename_i h
    rw [not_not] at h
    cases hbeyond : runs.find? fun r => size < r.stop with
    | some r =>
      have hlt : size < r.stop := by simpa using List.find?_some hbeyond
      refine iff_of_false (by simp) fun hall => ?_
      exact Nat.not_lt.mpr (hall.2 r (List.mem_of_find?_eq_some hbeyond)).1 hlt
    | none =>
      cases hbackward : runs.find? fun r => r.stop < r.start with
      | some r =>
        have hlt : r.stop < r.start := by simpa using List.find?_some hbackward
        refine iff_of_false (by simp) fun hall => ?_
        exact Nat.not_lt.mpr (hall.2 r (List.mem_of_find?_eq_some hbackward)).2 hlt
      | none =>
        refine iff_of_true rfl ⟨h, fun r hr => ⟨?_, ?_⟩⟩
        · simpa using List.find?_eq_none.mp hbeyond r hr
        · simpa using List.find?_eq_none.mp hbackward r hr

namespace RunPartition

theorem length_earlyFrom (window : Nat) {length position : Nat} {spans : List Span}
    (h : LaidOut length position spans) :
    (earlyFrom window position spans length).length = length - position := by
  induction spans generalizing position with
  | nil => simp [earlyFrom]
  | cons s rest ih =>
    obtain ⟨hstart, hlt, hrest⟩ := h
    have hend := hrest.position_le
    simp only [earlyFrom, List.length_append, List.length_replicate, ih hrest, Span.length]
    omega

variable {α : Type} [Scalar α]

theorem ofMask_eq_ok_iff {trace : Trace α} {mask : Mask} {window : Nat}
    {partition : RunPartition α} : ofMask trace mask window = .ok partition ↔
      mask.length = trace.length ∧ partition =
        ⟨mask.spans.map (runOn trace.toArray window), earlyFrom window 0 mask.spans mask.length⟩ := by
  simp only [ofMask]
  split
  · rename_i h
    simp only [h, true_and, Except.ok.injEq]
    exact eq_comm
  · rename_i h
    simp [h]

theorem mem_runs {trace : Trace α} {mask : Mask} {window : Nat} {partition : RunPartition α}
    (h : ofMask trace mask window = .ok partition) {r : Run α} (hr : r ∈ partition.runs) :
    r.start < r.stop ∧ r.stop ≤ trace.length := by
  obtain ⟨hlength, rfl⟩ := ofMask_eq_ok_iff.mp h
  obtain ⟨s, hs, rfl⟩ := List.mem_map.mp hr
  rw [← hlength]
  exact mask.laidOut_spans.mem hs

/-- The runs and flags of a mask belong to every channel with one value for each sample. -/
theorem runsFault?_ofMask {trace : Trace α} {mask : Mask} {window : Nat}
    {partition : RunPartition α} (h : ofMask trace mask window = .ok partition) :
    runsFault? trace.length partition.runs partition.early = none := by
  have hearly : partition.early.length = trace.length := by
    obtain ⟨hlength, rfl⟩ := ofMask_eq_ok_iff.mp h
    exact (length_earlyFrom window mask.laidOut_spans).trans hlength
  refine runsFault?_eq_none_iff.mpr ⟨hearly, fun r hr => ?_⟩
  obtain ⟨hne, hstop⟩ := mem_runs h hr
  exact ⟨hstop, Nat.le_of_lt hne⟩

end RunPartition

theorem Run.slice_toArray {α β : Type} (r : Run α) (xs : List β) :
    r.slice xs.toArray = (xs.drop r.start).take r.size := by
  simp [Run.slice, Run.size]

theorem samplesIn_cons {α : Type} (state high : Bool) (x : α) (values : List α) (mask : Mask) :
    samplesIn state (x :: values) (high :: mask) =
      if high = state then x :: samplesIn state values mask else samplesIn state values mask := by
  unfold samplesIn
  rw [List.zip_cons_cons, List.filterMap_cons]
  split <;> simp_all

theorem length_samplesIn {α : Type} (state : Bool) {values : List α} {mask : Mask}
    (h : mask.length = values.length) : (samplesIn state values mask).length = mask.count state := by
  induction mask generalizing values with
  | nil => simp [samplesIn]
  | cons high mask ih =>
    cases values with
    | nil => cases h
    | cons x values =>
      have ih := ih (Nat.succ.inj h)
      rw [samplesIn_cons, List.count_cons]
      split <;> simp_all

theorem samplesIn_map {α β : Type} (state : Bool) (f : α → β) (values : List α) (mask : Mask) :
    samplesIn state (values.map f) mask = (samplesIn state values mask).map f := by
  induction values generalizing mask with
  | nil => simp [samplesIn]
  | cons x values ih =>
    cases mask with
    | nil => simp [samplesIn]
    | cons high mask =>
      rw [List.map_cons, samplesIn_cons, samplesIn_cons, ih]
      split <;> rfl

namespace Mask

/-- The spans from a sample on cover the high samples from there on, after those of the stretch that
is still open. -/
theorem flatten_slices_spansFrom {α : Type} (xs : List α) (i : Nat) (began : Option Nat)
    (rest : Mask) (hbegan : began.getD i ≤ i) (hlength : i + rest.length = xs.length) :
    ((spansFrom i began rest).map fun s => (xs.drop s.start).take s.length).flatten =
      (xs.drop (began.getD i)).take (i - began.getD i) ++ samplesIn true (xs.drop i) rest := by
  induction rest generalizing i began with
  | nil => cases began <;> simp [spansFrom, samplesIn, Span.length]
  | cons state rest ih =>
    have hi : i < xs.length := by
      rw [List.length_cons] at hlength
      omega
    have hnext : i + 1 + rest.length = xs.length := by
      rw [List.length_cons] at hlength
      omega
    rw [List.drop_eq_getElem_cons hi, samplesIn_cons]
    cases state with
    | true =>
      have ih := ih (i + 1) (some (began.getD i)) (by simp only [Option.getD_some]; omega) hnext
      rw [spansFrom_high, ih, Option.getD_some, if_pos rfl,
        show i + 1 - began.getD i = i - began.getD i + 1 by omega, List.take_add_one,
        List.getElem?_drop, Nat.add_sub_cancel' hbegan, List.getElem?_eq_getElem hi,
        List.append_assoc]
      rfl
    | false =>
      have ih := ih (i + 1) none (Nat.le_refl _) hnext
      simp only [Option.getD_none, Nat.sub_self, List.take_zero, List.nil_append] at ih
      rw [if_neg (by decide)]
      cases began with
      | none => simpa [spansFrom] using ih
      | some start =>
        rw [spansFrom, List.map_cons, List.flatten_cons, ih]
        rfl

theorem flatten_slices_spans {α : Type} {xs : List α} {m : Mask} (h : m.length = xs.length) :
    (m.spans.map fun s => (xs.drop s.start).take s.length).flatten = samplesIn true xs m := by
  simpa [spans] using flatten_slices_spansFrom xs 0 none m (Nat.le_refl _) (by simpa using h)

end Mask

namespace RunPartition

theorem length_slice {α β : Type} [Scalar α] {trace : Trace α} {mask : Mask} {window : Nat}
    {partition : RunPartition α} (h : ofMask trace mask window = .ok partition) {xs : List β}
    (hxs : xs.length = trace.length) {r : Run α} (hr : r ∈ partition.runs) :
    (r.slice xs.toArray).length = r.size := by
  have := (mem_runs h hr).2
  rw [Run.slice_toArray, List.length_take, List.length_drop, Run.size]
  omega

theorem flatten_slices {α β : Type} [Scalar α] {trace : Trace α} {mask : Mask}
    {window : Nat} {partition : RunPartition α} (h : ofMask trace mask window = .ok partition)
    {xs : List β} (hxs : xs.length = trace.length) :
    (partition.runs.map fun r => r.slice xs.toArray).flatten = samplesIn true xs mask := by
  obtain ⟨hlength, rfl⟩ := ofMask_eq_ok_iff.mp h
  rw [List.map_map, ← Mask.flatten_slices_spans (hlength.trans hxs.symm)]
  congr 1
  refine List.map_congr_left fun s _ => ?_
  exact Run.slice_toArray _ _

theorem highCount_eq_sum {α : Type} (partition : RunPartition α) :
    partition.highCount = (partition.runs.map Run.size).sum := by
  rw [highCount, List.sum_eq_foldl, List.foldl_map]

theorem highCount_of_ofMask {α : Type} [Scalar α] {trace : Trace α} {mask : Mask} {window : Nat}
    {partition : RunPartition α} (h : ofMask trace mask window = .ok partition) :
    partition.highCount = mask.highCount := by
  have hcover := congrArg List.length (flatten_slices h (Eq.refl trace.length))
  rw [List.length_flatten, List.map_map,
    length_samplesIn true (ofMask_eq_ok_iff.mp h).1] at hcover
  rw [highCount_eq_sum, Mask.highCount, ← hcover]
  congr 1
  exact List.map_congr_left fun r hr => (length_slice h rfl hr).symm

end RunPartition

end EnergyProfile
