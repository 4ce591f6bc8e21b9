import EnergyProfile.Proofs.Double.Unrounded
import EnergyProfile.Proofs.Run.Partition
import EnergyProfile.Proofs.Statistics.Lost

/-!
# Statistics of equal values

Values that are all equal to one finite double have it as their mean and no spread at all, however
many they are. Every step is exact: the first value moves the mean from zero to itself, no later one
moves it, and all deviations from it are zeros. So a run on a constant channel has no spread, neither
as a whole nor in its early window.
-/

namespace EnergyProfile

set_option autoImplicit false

open Double

namespace Stat

variable {x m : Float} {a : ℝ}

theorem exactly_first_meanStep (hx : Exactly x a) :
    Exactly (meanStep (Scalar.ofNat 0, 0) x).1 a := by
  have hone : (ofFloat (Scalar.ofNat 1)).toReal = 1 :=
    (toReal_ofNat (by decide)).trans Nat.cast_one
  have hshare := exactly_div_one (exactly_sub_zero hx exactly_zero)
    (positive_ofNat one_pos (by decide)) hone
  exact exactly_zero_add exactly_zero hshare

theorem exactly_meanStep {count : Nat} (hm : Exactly m a) (hx : Exactly x a)
    (hsize : count + 1 ≤ maxSize) : Exactly (meanStep (m, count) x).1 a :=
  exactly_add_zero hm
    (exactly_zero_div (exactly_sub_self hx hm) (positive_ofNat (Nat.succ_pos count) hsize))

theorem exactly_foldl_meanStep (xs : List Float) {m : Float × Nat} (hm : Exactly m.1 a)
    (hxs : ∀ x ∈ xs, Exactly x a) (hsize : m.2 + xs.length ≤ maxSize) :
    Exactly (xs.foldl meanStep m).1 a := by
  induction xs generalizing m with
  | nil => exact hm
  | cons x xs ih =>
    rw [List.forall_mem_cons] at hxs
    rw [List.length_cons] at hsize
    have hcount : (meanStep m x).2 = m.2 + 1 := rfl
    exact ih (exactly_meanStep hm hxs.1 (by omega)) hxs.2 (by omega)

theorem exactly_meanOf {xs : List Float} (hne : xs ≠ []) (hxs : ∀ x ∈ xs, Exactly x a)
    (hsize : xs.length ≤ maxSize) : Exactly (meanOf xs) a := by
  rw [meanOf, if_neg hne]
  cases xs with
  | nil => exact absurd rfl hne
  | cons x xs =>
    rw [List.forall_mem_cons] at hxs
    rw [List.length_cons, Nat.add_comm] at hsize
    exact exactly_foldl_meanStep xs (exactly_first_meanStep hxs.1) hxs.2 hsize

/-- Deviations of which none has been other than zero. -/
structure Deviations.Flat (d : Deviations Float) : Prop where
  sum : Exactly d.sum 0
  squares : Exactly d.squares 0
  unsigned : Unsigned (ofFloat d.squares)

theorem Deviations.Flat.step {d : Deviations Float} {y : Float} (h : d.Flat) (hy : Exactly y 0)
    (hcount : 1 ≤ d.count) (hsize : d.count + 1 ≤ maxSize) : (d.step y).Flat := by
  have hsum : Exactly (d.sum + y) 0 := exactly_add_zero h.sum hy
  have hdifference : Exactly (d.difference y) 0 :=
    exactly_sub_self (exactly_mul_zero (ofNat_of_le_maxSize hsize).1 hy) hsum
  have hnumber : ofFloat (d.difference y) ≠ nan := by
    obtain ⟨n, k, e, hread⟩ := isFinite_iff.mp hdifference.1
    rw [hread]
    exact Double.noConfusion
  refine ⟨hsum, ?_, unsigned_squares_step h.unsigned hcount hsize hnumber⟩
  rw [squares_step]
  exact exactly_add_zero h.squares
    (exactly_zero_div (exactly_mul_zero hdifference.1 hdifference) (positive_divisor (by omega) hsize))

theorem Deviations.Flat.foldl {d : Deviations Float} (h : d.Flat) (hcount : 1 ≤ d.count)
    (ys : List Float) (hys : ∀ y ∈ ys, Exactly y 0) (hsize : d.count + ys.length ≤ maxSize) :
    (ys.foldl Deviations.step d).Flat := by
  induction ys generalizing d with
  | nil => exact h
  | cons y ys ih =>
    rw [List.forall_mem_cons] at hys
    rw [List.length_cons] at hsize
    have hnext : (d.step y).count = d.count + 1 := rfl
    exact ih (h.step hys.1 hcount (by omega)) (by omega) hys.2 (by omega)

theorem spreadOf_zeros {ys : List Float} (htwo : 2 ≤ ys.length) (hsize : ys.length ≤ maxSize)
    (hys : ∀ y ∈ ys, Exactly y 0) : spreadOf ys = 0 := by
  obtain _ | ⟨first, _ | ⟨second, rest⟩⟩ := ys
  · simp at htwo
  · simp at htwo
  rw [List.forall_mem_cons] at hys
  rw [List.length_cons, Nat.add_comm] at hsize
  have hstart : (⟨first, Scalar.ofNat 0, 1⟩ : Deviations Float).Flat :=
    ⟨hys.1, exactly_zero, .inr ⟨_, _, ofFloat_zero_eq⟩⟩
  have hend := hstart.foldl (Nat.le_refl 1) (second :: rest) hys.2 hsize
  have hcount := count_foldl ⟨first, Scalar.ofNat 0, 1⟩ (second :: rest)
  have hdivisor := positive_ofNat_sub_one (k := 1 + (second :: rest).length) (by simp; omega) hsize
  rw [← hcount] at hdivisor
  have hzero := (exactly_zero_div hend.squares hdivisor).eq_zero (unsigned_div hend.unsigned hdivisor)
  change Float.sqrt _ = 0
  rw [hzero]
  rfl

end Stat

/-- Values that are all equal to one finite number. The two zeros are equal. -/
structure ConstantAt (c : Float) (xs : List Float) : Prop where
  finite : c.isFinite
  equal : ∀ x ∈ xs, x == c

namespace ConstantAt

variable {c : Float} {xs ys : List Float}

theorem replicate (h : c.isFinite) (n : Nat) : ConstantAt c (List.replicate n c) := by
  refine ⟨h, fun x hx => ?_⟩
  rw [List.eq_of_mem_replicate hx, beq_iff h]
  exact ⟨h, rfl⟩

theorem of_subset (h : ConstantAt c xs) (hys : ys ⊆ xs) : ConstantAt c ys :=
  ⟨h.finite, fun y hy => h.equal y (hys hy)⟩

theorem exactly (h : ConstantAt c xs) : ∀ x ∈ xs, Exactly x (ofFloat c).toReal :=
  fun x hx => (beq_iff h.finite).mp (h.equal x hx)

theorem mean (h : ConstantAt c xs) (hne : xs ≠ []) (hsize : xs.length ≤ maxSize) :
    (Stat.of xs).mean == c :=
  (beq_iff h.finite).mpr (Stat.exactly_meanOf hne h.exactly hsize)

theorem spread (h : ConstantAt c xs) (htwo : 2 ≤ xs.length) (hsize : xs.length ≤ maxSize) :
    (Stat.of xs).spread = 0 := by
  have hne : xs ≠ [] := List.length_pos_iff.mp (by omega)
  have hmean := Stat.exactly_meanOf hne h.exactly hsize
  refine Stat.spreadOf_zeros (by simpa using htwo) (by simpa using hsize) fun y hy => ?_
  obtain ⟨x, hx, rfl⟩ := List.mem_map.mp hy
  exact exactly_sub_self (h.exactly x hx) hmean

theorem earlySpreadOf (h : ConstantAt c xs) (hsize : xs.length ≤ maxSize) :
    RunSummary.earlySpreadOf xs = 0 := by
  unfold RunSummary.earlySpreadOf
  split
  · rfl
  · rename_i hmany
    exact h.spread (Nat.not_lt.mp hmany) hsize

end ConstantAt

theorem samplesIn_sublist {β : Type} (state : Bool) (values : List β) (mask : Mask) :
    (samplesIn state values mask).Sublist values := by
  induction values generalizing mask with
  | nil => simp [samplesIn]
  | cons x values ih =>
    cases mask with
    | nil => simp [samplesIn]
    | cons high mask =>
      rw [samplesIn_cons]
      split
      · exact (ih mask).cons_cons x
      · exact (ih mask).cons x

/-- What the summary of a run on these samples says if they are constant, or if there is only one. -/
structure RunSummary.Steady (s : RunSummary Float) (samples : List Float) : Prop where
  size : s.size = samples.length
  mean : ∀ c, ConstantAt c samples → 1 ≤ s.size → s.mean == c
  spread : ∀ c, ConstantAt c samples → 2 ≤ s.size → s.spread = 0
  earlySpread : ∀ c, ConstantAt c samples → s.earlySpread = 0
  single : s.size = 1 → s.spread.isNaN

theorem RunSummary.steady_ofSamples {r : Run Float} {samples : List Float} (flags : Mask)
    (hrun : r.size = samples.length) (hsize : samples.length ≤ maxSize) :
    (ofSamples r samples flags).Steady samples := by
  have hcount : (ofSamples r samples flags).size = samples.length := hrun
  constructor
  · exact hcount
  · intro c hc hone
    rw [hcount] at hone
    exact hc.mean (List.length_pos_iff.mp hone) hsize
  · intro c hc htwo
    exact hc.spread (hcount ▸ htwo) hsize
  · intro c hc
    have hearly := samplesIn_sublist true samples flags
    exact (hc.of_subset hearly.subset).earlySpreadOf (hearly.length_le.trans hsize)
  · intro hone
    rw [hcount] at hone
    obtain ⟨x, rfl⟩ := List.length_eq_one_iff.mp hone
    change (Scalar.undefined : Float).isNaN = true
    decide +kernel

/-- Equal values have themselves as their mean and no spread, and so have the runs of every trace on
which a channel is constant, whatever the early window. The values are no more than a size can count. -/
theorem summaries_steady :
    (∀ (c : Float) (n : Nat), c.isFinite → 2 ≤ n → n ≤ maxSize →
      (Stat.of (List.replicate n c)).mean == c ∧ (Stat.of (List.replicate n c)).spread = 0) ∧
    ∀ (trace : Trace Float) (mask : Mask) (window : Nat) (partition : RunPartition Float)
      (values : List Float), trace.length ≤ maxSize → values.length = trace.length →
      RunPartition.ofMask trace mask window = .ok partition →
      ∃ summaries, summarizeRuns values partition.runs partition.early = .ok summaries ∧
        List.Forall₂ (fun r s => s.Steady (r.slice values.toArray)) partition.runs summaries := by
  constructor
  · intro c n hc htwo hsize
    have hconstant := ConstantAt.replicate hc n
    have hlength : (List.replicate n c).length = n := List.length_replicate
    have hne : List.replicate n c ≠ [] := List.length_pos_iff.mp (by omega)
    exact ⟨hconstant.mean hne (by rwa [hlength]),
      hconstant.spread (by rwa [hlength]) (by rwa [hlength])⟩
  · intro trace mask window partition values hsize hlength hpartition
    have hfault := RunPartition.runsFault?_ofMask hpartition
    rw [← hlength] at hfault
    refine ⟨partition.runs.map fun r => .ofSamples r (r.slice values.toArray)
      (r.slice partition.early.toArray), by simp only [summarizeRuns, hfault], ?_⟩
    rw [List.forall₂_map_right_iff, List.forall₂_same]
    intro r hr
    have hslice := RunPartition.length_slice hpartition hlength hr
    have hinside := RunPartition.mem_runs hpartition hr
    refine RunSummary.steady_ofSamples _ hslice.symm ?_
    rw [hslice, Run.size]
    omega

def tenthsTrace : Trace Float := [⟨0, 0.1⟩, ⟨1, 0.1⟩, ⟨2, 0.1⟩, ⟨3, 0⟩, ⟨4, 0.3⟩]

theorem summaries_steady_of_tenths :
    ((0.1 : Float).isFinite ∧ (Stat.of (List.replicate 3 (0.1 : Float))).mean == 0.1 ∧
      (Stat.of (List.replicate 3 (0.1 : Float))).spread = 0) ∧
    ∃ partition triple single,
      RunPartition.ofMask tenthsTrace [true, true, true, false, true] 2 = .ok partition ∧
      summarizeRuns tenthsTrace.values partition.runs partition.early = .ok [triple, single] ∧
      (triple.mean == 0.1 ∧ triple.spread = 0 ∧ triple.earlySpread = 0) ∧ single.spread.isNaN := by
  obtain ⟨hcopies, hchannels⟩ := summaries_steady
  have hfinite : (0.1 : Float).isFinite := by decide +kernel
  refine ⟨⟨hfinite, hcopies 0.1 3 hfinite (by decide) (by decide)⟩, ?_⟩
  have hpartition : RunPartition.ofMask tenthsTrace [true, true, true, false, true] 2 =
      .ok ⟨[⟨0, 3, 0, 2, 2⟩, ⟨4, 5, 4, 4, 1⟩], [true, true, false, false, true]⟩ := rfl
  obtain ⟨summaries, hsummaries, hsteady⟩ := hchannels tenthsTrace [true, true, true, false, true] 2
    ⟨[⟨0, 3, 0, 2, 2⟩, ⟨4, 5, 4, 4, 1⟩], [true, true, false, false, true]⟩
    tenthsTrace.values (by decide) rfl hpartition
  obtain ⟨triple, _, htriple, hrest, rfl⟩ := List.forall₂_cons_left_iff.mp hsteady
  obtain ⟨single, _, hsingle, hnil, rfl⟩ := List.forall₂_cons_left_iff.mp hrest
  obtain rfl := List.forall₂_nil_left_iff.mp hnil
  have hconstant : ConstantAt 0.1 (List.replicate 3 (0.1 : Float)) := .replicate hfinite 3
  exact ⟨_, triple, single, hpartition, hsummaries,
    ⟨htriple.mean 0.1 hconstant (htriple.size.symm ▸ by decide),
      htriple.spread 0.1 hconstant (htriple.size.symm ▸ by decide),
      htriple.earlySpread 0.1 hconstant⟩,
    hsingle.single hsingle.size⟩

/-- A quotient of a sum and a count need not be the value that was added up. -/
example : ((0.1 + 0.1 + 0.1 : Float) / 3 == 0.1) = false := by decide +kernel

end EnergyProfile
