import EnergyProfile.Proofs.Mask.Inclusion
import Mathlib.Data.List.Sort
import Mathlib.Data.Set.Function

/-!
# Masks and their runs

A mask can be cut into spans in one way only: into its high stretches. A list of spans with room
between its neighbours is found again in the mask that is high on them. So the masks of a trace and
the lists of runs on it determine each other.
-/

namespace EnergyProfile

set_option autoImplicit false

theorem eq_or_of_pairwise {β : Type} {R : β → β → Prop} {xs : List β} (h : xs.Pairwise R) {x y : β}
    (hx : x ∈ xs) (hy : y ∈ xs) : x = y ∨ R x y ∨ R y x := by
  by_cases heq : x = y
  · exact Or.inl heq
  · have heither : xs.Pairwise fun x y => R x y ∨ R y x := h.imp Or.inl
    have : Std.Symm fun x y => R x y ∨ R y x := ⟨fun _ _ => Or.symm⟩
    exact Or.inr (heither.forall hx hy heq)

namespace Mask

/-- A mask is high exactly on some spans. -/
def HighOn (m : Mask) (spans : List Span) : Prop :=
  ∀ i, m.High i ↔ ∃ s ∈ spans, s.start ≤ i ∧ i < s.stop

/-- Spans in order, none of them empty, with a low sample between each two, that cover exactly the
high samples. -/
structure CutInto (m : Mask) (spans : List Span) : Prop where
  nonempty : ∀ s ∈ spans, s.start < s.stop
  separated : spans.Pairwise fun s t => ∃ i, s.stop ≤ i ∧ i < t.start ∧ m.Low i
  highOn : m.HighOn spans

/-- Spans in order within a length, none of them empty, with a position between neighbours. -/
structure Spaced (length : Nat) (spans : List Span) : Prop where
  nonempty : ∀ s ∈ spans, s.start < s.stop
  stop_le : ∀ s ∈ spans, s.stop ≤ length
  apart : spans.IsChain fun s t => s.stop < t.start

variable {m m' : Mask} {spans : List Span} {s : Span} {length : Nat}

theorem eq_of_highOn (hlength : m.length = m'.length) (h : m.HighOn spans)
    (h' : m'.HighOn spans) : m = m' :=
  Within.eq hlength (fun i hi => (h' i).mpr ((h i).mp hi)) fun i hi => (h i).mpr ((h' i).mp hi)

theorem highOn_spans (m : Mask) : m.HighOn m.spans := by
  intro i
  constructor
  · intro hi
    obtain ⟨s, hs, hstart, hstop⟩ := exists_stretch_at hi
    exact ⟨s, (mem_spans_iff m s).mpr hs, hstart, hstop⟩
  · rintro ⟨s, hs, hstart, hstop⟩
    exact ((mem_spans_iff m s).mp hs).uniform i hstart hstop

theorem spaced_spans (m : Mask) : Spaced m.length m.spans where
  nonempty s hs := ((mem_spans_iff m s).mp hs).nonempty
  stop_le s hs := ((mem_spans_iff m s).mp hs).stop_le
  apart := m.isChain_spans.imp fun _ _ hgap => hgap.nonempty

theorem Spaced.pairwise (h : Spaced length spans) :
    spans.Pairwise fun s t => s.stop < t.start := by
  let Before (s t : Span) : Prop := s.start < s.stop ∧ s.stop < t.start
  have : IsTrans Span Before :=
    ⟨fun s t u hst htu => ⟨hst.1, hst.2.trans (htu.1.trans htu.2)⟩⟩
  have hchain : spans.IsChain Before :=
    h.apart.imp_of_mem_imp fun s t hs _ hlt => ⟨h.nonempty s hs, hlt⟩
  exact (List.isChain_iff_pairwise.mp hchain).imp And.right

theorem Spaced.cutInto (h : Spaced m.length spans) (hon : m.HighOn spans) :
    m.CutInto spans := by
  refine ⟨h.nonempty, h.pairwise.imp_of_mem fun {s t} hs ht hlt => ?_, hon⟩
  have hinside : s.stop < m.length := by
    have := h.nonempty t ht
    have := h.stop_le t ht
    omega
  refine ⟨s.stop, Nat.le_refl _, hlt, (low_iff_not_high hinside).mpr fun hhigh => ?_⟩
  obtain ⟨u, hu, hstart, hstop⟩ := (hon s.stop).mp hhigh
  have hne := h.nonempty s hs
  rcases eq_or_of_pairwise h.pairwise hs hu with rfl | hafter | hbefore
  · omega
  · omega
  · omega

theorem CutInto.stretch (h : m.CutInto spans) (hs : s ∈ spans) : Stretch m true s := by
  have houtside (i : Nat) (hi : m.High i) (hout : i + 1 = s.start ∨ i = s.stop) : False := by
    obtain ⟨t, ht, hstart, hstop⟩ := (h.highOn i).mp hi
    have hne := h.nonempty s hs
    rcases eq_or_of_pairwise h.separated hs ht with rfl | ⟨k, hk, hk', -⟩ | ⟨k, hk, hk', -⟩
    · omega
    · omega
    · omega
  refine ⟨h.nonempty s hs, fun i hstart hstop => (h.highOn i).mpr ⟨s, hs, hstart, hstop⟩, ?_, ?_⟩
  · by_cases hzero : s.start = 0
    · exact Or.inl hzero
    · exact Or.inr fun hhigh => houtside (s.start - 1) hhigh (Or.inl (by omega))
  · exact fun hhigh => houtside s.stop hhigh (Or.inr rfl)

theorem CutInto.mem_iff (h : m.CutInto spans) (s : Span) : s ∈ spans ↔ Stretch m true s := by
  constructor
  · exact h.stretch
  · intro hs
    have hfirst := hs.uniform s.start (Nat.le_refl _) hs.nonempty
    obtain ⟨t, ht, hstart, hstop⟩ := (h.highOn s.start).mp hfirst
    rwa [hs.eq_of_mem (h.stretch ht) ⟨Nat.le_refl _, hs.nonempty⟩ ⟨hstart, hstop⟩]

theorem cutInto_iff (m : Mask) (spans : List Span) : m.CutInto spans ↔ spans = m.spans := by
  have hspans : m.CutInto m.spans := m.spaced_spans.cutInto m.highOn_spans
  constructor
  · intro h
    have hordered {spans : List Span} (h : m.CutInto spans) :
        spans.Pairwise (Order.Preimage Span.start (· < ·)) :=
      h.separated.imp_of_mem fun {s t} hs _ ⟨k, hk, hk', _⟩ =>
        (h.nonempty s hs).trans_le (hk.trans hk'.le)
    refine (hordered h).eq_of_mem_iff (hordered hspans) fun s => ?_
    rw [h.mem_iff, mem_spans_iff]
  · rintro rfl
    exact hspans

theorem high_append_iff (m m' : Mask) (i : Nat) :
    (m ++ m').High i ↔ m.High i ∨ m.length ≤ i ∧ m'.High (i - m.length) := by
  unfold High
  by_cases hi : i < m.length
  · rw [List.getElem?_append_left hi]
    simp only [Nat.not_le.mpr hi, false_and, or_false]
  · have hi := Nat.le_of_not_lt hi
    rw [List.getElem?_append_right hi, List.getElem?_eq_none hi]
    simp [hi]

theorem high_replicate_iff (n : Nat) (state : Bool) (i : Nat) :
    High (List.replicate n state) i ↔ i < n ∧ state = true := by
  simp [High, List.getElem?_replicate]

theorem length_ofSpansFrom {position : Nat} (h : LaidOut length position spans) :
    (ofSpansFrom position spans length).length = length - position := by
  induction spans generalizing position with
  | nil => exact List.length_replicate
  | cons s rest ih =>
    obtain ⟨hstart, hlt, hrest⟩ := h
    have hend := hrest.position_le
    simp only [ofSpansFrom, List.length_append, List.length_replicate, ih hrest, Span.length]
    omega

theorem high_ofSpansFrom_iff {position : Nat} (h : LaidOut length position spans) (i : Nat) :
    (ofSpansFrom position spans length).High i ↔
      ∃ s ∈ spans, s.start ≤ position + i ∧ position + i < s.stop := by
  induction spans generalizing position i with
  | nil => simp [ofSpansFrom, high_replicate_iff]
  | cons s rest ih =>
    have hlater : ∀ t ∈ rest, s.stop ≤ t.start := (List.pairwise_cons.mp h.pairwise).1
    obtain ⟨hstart, hlt, hrest⟩ := h
    have hfirst : s.start - position + s.length = s.stop - position := by
      unfold Span.length
      omega
    simp only [ofSpansFrom, high_append_iff, high_replicate_iff, List.length_append,
      List.length_replicate, ih hrest, hfirst, List.exists_mem_cons_iff]
    constructor
    · rintro ((⟨-, hlow⟩ | ⟨hle, hin, -⟩) | ⟨hle, t, ht, hstart', hstop'⟩)
      · cases hlow
      · exact Or.inl (by omega)
      · exact Or.inr ⟨t, ht, by omega, by omega⟩
    · rintro (⟨hle, hin⟩ | ⟨t, ht, hstart', hstop'⟩)
      · exact Or.inl (Or.inr ⟨by omega, by omega, trivial⟩)
      · have := hlater t ht
        exact Or.inr ⟨by omega, t, ht, by omega, by omega⟩

theorem Spaced.laidOut (h : Spaced length spans) : LaidOut length 0 spans := by
  have hfrom {position : Nat} {spans : List Span} (h : Spaced length spans)
      (hposition : position ≤ length) (hfirst : ∀ s ∈ spans.head?, position ≤ s.start) :
      LaidOut length position spans := by
    induction spans generalizing position with
    | nil => exact hposition
    | cons s rest ih =>
      obtain ⟨hne, hnonempty⟩ := List.forall_mem_cons.mp h.nonempty
      obtain ⟨hle, hstop⟩ := List.forall_mem_cons.mp h.stop_le
      obtain ⟨hnext, hapart⟩ := List.isChain_cons.mp h.apart
      refine ⟨hfirst s rfl, hne, ih ⟨hnonempty, hstop, hapart⟩ hle fun t ht => ?_⟩
      exact Nat.le_of_lt (hnext t ht)
  exact hfrom h (Nat.zero_le length) fun s _ => Nat.zero_le s.start

theorem Spaced.length_ofSpans (h : Spaced length spans) : (ofSpans spans length).length = length :=
  length_ofSpansFrom h.laidOut

theorem Spaced.highOn_ofSpans (h : Spaced length spans) : (ofSpans spans length).HighOn spans := by
  intro i
  have hhigh := high_ofSpansFrom_iff h.laidOut i
  rwa [Nat.zero_add] at hhigh

theorem Spaced.spans_eq (h : Spaced m.length spans) (hon : m.HighOn spans) : m.spans = spans :=
  ((cutInto_iff m spans).mp (h.cutInto hon)).symm

theorem Spaced.existsUnique_highOn (h : Spaced length spans) :
    ∃! m : Mask, m.length = length ∧ m.HighOn spans := by
  refine ⟨ofSpans spans length, ⟨h.length_ofSpans, h.highOn_ofSpans⟩, ?_⟩
  rintro m ⟨hlength, hon⟩
  exact eq_of_highOn (hlength.trans h.length_ofSpans.symm) hon h.highOn_ofSpans

end Mask

variable {α : Type}

/-- A run has the times of its first and last sample, and as many early samples as fit. -/
structure Run.TakenFrom (r : Run α) (trace : Trace α) (window : Nat) : Prop where
  startTime : trace.times[r.start]? = some r.startTime
  endTime : trace.times[r.stop - 1]? = some r.endTime
  earlyCount : r.earlyCount = min window r.size

/-- Runs that are taken from a trace and into which a mask is cut. -/
structure RunsOf (trace : Trace α) (window : Nat) (mask : Mask) (runs : List (Run α)) : Prop where
  cutInto : mask.CutInto (runs.map Run.span)
  takenFrom : ∀ r ∈ runs, r.TakenFrom trace window

/-- Runs that are taken from a trace, with a sample between neighbours. -/
structure RunsOn (trace : Trace α) (window : Nat) (runs : List (Run α)) : Prop where
  spaced : Mask.Spaced trace.length (runs.map Run.span)
  takenFrom : ∀ r ∈ runs, r.TakenFrom trace window

namespace RunPartition

variable [Scalar α] {trace : Trace α} {window : Nat} {mask : Mask} {runs : List (Run α)}

theorem takenFrom_runOn (trace : Trace α) (window : Nat) {s : Span} (hne : s.start < s.stop)
    (hstop : s.stop ≤ trace.length) : (runOn trace.toArray window s).TakenFrom trace window := by
  have hfirst : s.start < trace.length := by omega
  have hlast : s.stop - 1 < trace.length := by omega
  constructor
  · simp [runOn, Trace.times, hfirst]
  · simp [runOn, Trace.times, hlast]
  · rfl

theorem runOn_span {r : Run α} (h : r.TakenFrom trace window) :
    runOn trace.toArray window r.span = r := by
  obtain ⟨hstart, hend, hearly⟩ := h
  rw [Trace.times, List.getElem?_map] at hstart hend
  simp only [runOn, Run.span, List.getElem?_toArray, hstart, hend, Option.getD_some]
  rw [show min window (Span.length ⟨r.start, r.stop⟩) = r.earlyCount from hearly.symm]

theorem map_span_runOn (trace : Trace α) (window : Nat) (spans : List Span) :
    (spans.map (runOn trace.toArray window)).map Run.span = spans := by
  rw [List.map_map]
  exact List.map_id spans

theorem eq_runs_iff (window : Nat) (hlength : mask.length = trace.length) :
    (runs.map Run.span = mask.spans ∧ ∀ r ∈ runs, r.TakenFrom trace window) ↔
      runs = mask.spans.map (runOn trace.toArray window) := by
  constructor
  · rintro ⟨hspans, htaken⟩
    rw [← hspans, List.map_map]
    calc runs = runs.map id := (List.map_id runs).symm
      _ = runs.map (runOn trace.toArray window ∘ Run.span) :=
        List.map_congr_left fun r hr => (runOn_span (htaken r hr)).symm
  · rintro rfl
    refine ⟨map_span_runOn trace window mask.spans, List.forall_mem_map.mpr fun s hs => ?_⟩
    have hspaced := mask.spaced_spans
    exact takenFrom_runOn trace window (hspaced.nonempty s hs)
      ((hspaced.stop_le s hs).trans_eq hlength)

theorem runsOf_iff (hlength : mask.length = trace.length) :
    RunsOf trace window mask runs ↔ runs = mask.spans.map (runOn trace.toArray window) := by
  rw [← eq_runs_iff window hlength, ← Mask.cutInto_iff]
  exact ⟨fun h => ⟨h.cutInto, h.takenFrom⟩, fun h => ⟨h.1, h.2⟩⟩

theorem ofMask_eq_ok (window : Nat) (hlength : mask.length = trace.length) :
    ∃ partition, ofMask trace mask window = .ok partition ∧
      partition.runs = mask.spans.map (runOn trace.toArray window) :=
  ⟨_, ofMask_eq_ok_iff.mpr ⟨hlength, rfl⟩, rfl⟩

theorem bijOn_spans (length : Nat) :
    Set.BijOn Mask.spans {mask | mask.length = length} {spans | Mask.Spaced length spans} := by
  refine ⟨?_, ?_, ?_⟩
  · rintro mask rfl
    exact mask.spaced_spans
  · intro mask hlength mask' hlength' hspans
    have hon' := mask'.highOn_spans
    rw [← hspans] at hon'
    exact Mask.eq_of_highOn (hlength.trans hlength'.symm) mask.highOn_spans hon'
  · intro spans hspaced
    have hlength := hspaced.length_ofSpans
    refine ⟨Mask.ofSpans spans length, hlength, ?_⟩
    exact (hlength.symm ▸ hspaced).spans_eq hspaced.highOn_ofSpans

theorem bijOn_runs (trace : Trace α) (window : Nat) :
    Set.BijOn (fun mask => (ofMask trace mask window).map RunPartition.runs)
      {mask | mask.length = trace.length} (Except.ok '' {runs | RunsOn trace window runs}) := by
  have hruns {mask : Mask} (hlength : mask.length = trace.length) :
      (ofMask trace mask window).map RunPartition.runs =
        .ok (mask.spans.map (runOn trace.toArray window)) := by
    obtain ⟨partition, hpartition, hruns⟩ := ofMask_eq_ok window hlength
    rw [hpartition]
    exact congrArg Except.ok hruns
  obtain ⟨hmaps, hinjective, hsurjective⟩ := bijOn_spans trace.length
  refine ⟨fun mask hlength => ?_, fun mask hlength mask' hlength' heq => ?_, ?_⟩
  · obtain ⟨hspans, htaken⟩ := (eq_runs_iff window hlength).mpr rfl
    exact ⟨_, ⟨hspans.symm ▸ hmaps hlength, htaken⟩, (hruns hlength).symm⟩
  · simp only [hruns hlength, hruns hlength', Except.ok.injEq] at heq
    have hspans := congrArg (List.map Run.span) heq
    rw [map_span_runOn, map_span_runOn] at hspans
    exact hinjective hlength hlength' hspans
  · rintro _ ⟨runs, hon, rfl⟩
    obtain ⟨mask, hlength, hspans⟩ := hsurjective hon.spaced
    have heq := (eq_runs_iff window hlength).mp ⟨hspans.symm, hon.takenFrom⟩
    exact ⟨mask, hlength, heq ▸ hruns hlength⟩

/-- The runs of a mask are the only ones that it can be cut into, spans with room between them are
those of the runs of one mask, and no runs on a trace are missed. -/
theorem runs_bijective (trace : Trace α) (window : Nat) :
    (∀ mask : Mask, mask.length = trace.length →
      ∃ partition, ofMask trace mask window = .ok partition ∧
        ∀ runs, RunsOf trace window mask runs ↔ runs = partition.runs) ∧
    (∀ spans, Mask.Spaced trace.length spans →
      (∃! mask : Mask, mask.length = trace.length ∧ mask.HighOn spans) ∧
        ∀ mask : Mask, mask.length = trace.length → mask.HighOn spans →
          ∃ partition, ofMask trace mask window = .ok partition ∧
            partition.runs.map Run.span = spans) ∧
    Set.BijOn (fun mask => (ofMask trace mask window).map RunPartition.runs)
      {mask | mask.length = trace.length} (Except.ok '' {runs | RunsOn trace window runs}) := by
  refine ⟨fun mask hlength => ?_, fun spans hspaced => ⟨hspaced.existsUnique_highOn, ?_⟩,
    bijOn_runs trace window⟩
  · obtain ⟨partition, hpartition, hruns⟩ := ofMask_eq_ok window hlength
    refine ⟨partition, hpartition, fun runs => ?_⟩
    rw [hruns, runsOf_iff hlength]
  · intro mask hlength hon
    obtain ⟨partition, hpartition, hruns⟩ := ofMask_eq_ok window hlength
    refine ⟨partition, hpartition, ?_⟩
    rw [hruns, map_span_runOn]
    exact (hlength ▸ hspaced).spans_eq hon

def quarterSecondTrace : Trace Float := [⟨0, 2⟩, ⟨0.25, 2⟩, ⟨0.5, 0⟩, ⟨0.75, 2⟩, ⟨1, 0⟩]

theorem runs_bijective_of_two_runs :
    Mask.Spaced 5 [⟨0, 2⟩, ⟨3, 4⟩] ∧
      (∃! mask : Mask, mask.length = 5 ∧ mask.HighOn [⟨0, 2⟩, ⟨3, 4⟩]) ∧
      ∃ partition, ofMask quarterSecondTrace [true, true, false, true, false] 1 = .ok partition ∧
        RunsOf quarterSecondTrace 1 [true, true, false, true, false] partition.runs ∧
        partition.runs.map Run.span = [⟨0, 2⟩, ⟨3, 4⟩] := by
  have hspaced : Mask.Spaced 5 [⟨0, 2⟩, ⟨3, 4⟩] :=
    Mask.spaced_spans [true, true, false, true, false]
  have hon : Mask.HighOn [true, true, false, true, false] [⟨0, 2⟩, ⟨3, 4⟩] :=
    Mask.highOn_spans [true, true, false, true, false]
  obtain ⟨hcut, hspans, -⟩ := runs_bijective quarterSecondTrace 1
  obtain ⟨partition, hpartition, hruns⟩ := hcut [true, true, false, true, false] rfl
  obtain ⟨hunique, hback⟩ := hspans [⟨0, 2⟩, ⟨3, 4⟩] hspaced
  obtain ⟨partition', hpartition', hspans'⟩ := hback [true, true, false, true, false] rfl hon
  obtain rfl := Except.ok.inj (hpartition.symm.trans hpartition')
  exact ⟨hspaced, hunique, partition, hpartition, (hruns _).mpr rfl, hspans'⟩

end RunPartition

end EnergyProfile
