import EnergyProfile.Proofs.Analysis.Accounting
import EnergyProfile.Proofs.Trace.Addressing

/-!
# Runs as a timeline

A run is reported with the times of its first and its last sample. The runs of a mask lie one after
another, so where time never goes back the reported ones do as well, and in exact arithmetic their
durations add up to no more than the time from the first sample to the last. Equal times are allowed.
-/

namespace EnergyProfile

set_option autoImplicit false

/-- Time never goes back from one sample to a later one. -/
def Trace.Ordered (t : Trace ℝ) : Prop :=
  t.times.Pairwise (· ≤ ·)

theorem Trace.Ordered.sublist {t w : Trace ℝ} (h : t.Ordered) (hw : w.Sublist t) : w.Ordered :=
  List.Pairwise.sublist (hw.map Sample.time) h

theorem Trace.Ordered.time_le {t : Trace ℝ} (h : t.Ordered) {i j : Nat} (hij : i ≤ j)
    {x y : Sample ℝ} (hx : t[i]? = some x) (hy : t[j]? = some y) : x.time ≤ y.time := by
  obtain ⟨hi, rfl⟩ := List.getElem?_eq_some_iff.mp hx
  obtain ⟨hj, rfl⟩ := List.getElem?_eq_some_iff.mp hy
  rcases Nat.eq_or_lt_of_le hij with rfl | hlt
  · exact le_refl _
  · have hordered := List.pairwise_iff_getElem.mp (List.pairwise_map.mp h)
    exact hordered i j hi hj hlt

theorem Recording.window_sublist {α : Type} [Scalar α] (r : Recording α) (start stop rate : α) :
    (r.window start stop rate).Sublist r.samples :=
  (List.drop_sublist _ _).trans (List.take_sublist _ _)

/-- A reported run has the times of the first and the last sample of a span. -/
structure RunSummary.On {α : Type} [Scalar α] (w : Trace α) (r : RunSummary α) (s : Span) :
    Prop where
  startTime : w[s.start]?.map Sample.time = some r.startTime
  endTime : w[s.stop - 1]?.map Sample.time = some r.endTime
  duration : r.duration = r.endTime - r.startTime

/-- Runs between two times, one after another. -/
structure Timeline (first last : ℝ) (runs : List (RunSummary ℝ)) : Prop where
  inside : ∀ r ∈ runs, first ≤ r.startTime ∧ r.startTime ≤ r.endTime ∧ r.endTime ≤ last
  durations : ∀ r ∈ runs, r.duration = r.endTime - r.startTime ∧ 0 ≤ r.duration
  apart : runs.IsChain fun r next => r.endTime ≤ next.startTime
  total : (runs.map RunSummary.duration).sum ≤ last - first

theorem RunPartition.on_runOn {α : Type} [Scalar α] {w : Trace α} (window : Nat) {s : Span}
    (hne : s.start < s.stop) (hstop : s.stop ≤ w.length) (samples : List α) (flags : Mask) :
    (RunSummary.ofSamples (runOn w.toArray window s) samples flags).On w s := by
  have hfirst : w[s.start]? = some w[s.start] := List.getElem?_eq_getElem _
  have hlast : w[s.stop - 1]? = some w[s.stop - 1] := List.getElem?_eq_getElem _
  constructor
  · simp [RunSummary.ofSamples, runOn, hfirst]
  · simp [RunSummary.ofSamples, runOn, hlast]
  · rfl

/-- Each run of an analysis is on its span of the mask, in order. -/
theorem Analysis.on_spans {α : Type} [Scalar α] {w : Trace α} {p : Params α} {s : Segmentation}
    {partition : RunPartition α}
    (h : RunPartition.ofMask w s.mask p.earlySamples = .ok partition) :
    List.Forall₂ (RunSummary.On w) (ofRuns w p s partition).runs s.mask.spans := by
  obtain ⟨hlength, rfl⟩ := RunPartition.ofMask_eq_ok_iff.mp h
  simp only [ofRuns, List.map_map, List.forall₂_map_left_iff, List.forall₂_same]
  intro span hspan
  obtain ⟨hne, hstop⟩ := s.mask.laidOut_spans.mem hspan
  exact RunPartition.on_runOn _ hne (hstop.trans_eq hlength) _ _

theorem Timeline.nil {first last : ℝ} (h : first ≤ last) : Timeline first last [] := by
  constructor
  · simp
  · simp
  · exact List.isChain_nil
  · simpa using h

theorem Timeline.first_le_last {first last : ℝ} {runs : List (RunSummary ℝ)}
    (h : Timeline first last runs) : first ≤ last := by
  have hnonneg : 0 ≤ (runs.map RunSummary.duration).sum := by
    apply List.sum_nonneg
    intro x hx
    obtain ⟨r, hr, rfl⟩ := List.mem_map.mp hx
    exact (h.durations r hr).2
  have := h.total
  linarith

/-- A run in front of a timeline that begins where the run ends. -/
theorem Timeline.cons {first last : ℝ} {r : RunSummary ℝ} {rest : List (RunSummary ℝ)}
    (hfirst : first ≤ r.startTime) (hforward : r.startTime ≤ r.endTime)
    (hduration : r.duration = r.endTime - r.startTime) (hrest : Timeline r.endTime last rest) :
    Timeline first last (r :: rest) := by
  have hlast := hrest.first_le_last
  constructor
  · intro x hx
    rcases List.mem_cons.mp hx with rfl | hx
    · exact ⟨hfirst, hforward, hlast⟩
    · obtain ⟨hafter, hinside⟩ := hrest.inside x hx
      exact ⟨(hfirst.trans hforward).trans hafter, hinside⟩
  · intro x hx
    rcases List.mem_cons.mp hx with rfl | hx
    · exact ⟨hduration, by linarith⟩
    · exact hrest.durations x hx
  · apply List.isChain_cons.mpr
    exact ⟨fun next hnext => (hrest.inside next (List.mem_of_mem_head? hnext)).1, hrest.apart⟩
  · have htotal := hrest.total
    rw [List.map_cons, List.sum_cons, hduration]
    linarith

/-- Runs on spans that are laid out from a position on are a timeline from any time on that no sample
from the position on is before. The induction moves that time to the end of each run. -/
theorem Timeline.of_on {w : Trace ℝ} (hordered : w.Ordered) {last : ℝ}
    (hlast : ∀ x ∈ w, x.time ≤ last) {runs : List (RunSummary ℝ)} {spans : List Span}
    (hon : List.Forall₂ (RunSummary.On w) runs spans) {position : Nat} {first : ℝ}
    (hlaid : LaidOut w.length position spans) (hle : first ≤ last)
    (hfirst : ∀ i x, position ≤ i → w[i]? = some x → first ≤ x.time) :
    Timeline first last runs := by
  induction hon generalizing position first with
  | nil => exact .nil hle
  | @cons r s runs spans hr hon ih =>
    obtain ⟨hposition, hne, hrest⟩ := hlaid
    obtain ⟨x, hx, hxtime⟩ := Option.map_eq_some_iff.mp hr.startTime
    obtain ⟨y, hy, hytime⟩ := Option.map_eq_some_iff.mp hr.endTime
    have hforward : x.time ≤ y.time := hordered.time_le (by omega) hx hy
    rw [hxtime, hytime] at hforward
    have hend : r.endTime ≤ last := hytime ▸ hlast y (List.mem_of_getElem? hy)
    apply Timeline.cons _ hforward hr.duration
    · apply ih hrest hend
      intro i z hi hz
      rw [← hytime]
      exact hordered.time_le (by omega) hy hz
    · rw [← hxtime]
      exact hfirst _ x hposition hx

theorem Trace.duration_of_ends {w : Trace ℝ} {first last : Sample ℝ} (hfirst : w.head? = some first)
    (hlast : w.getLast? = some last) : w.duration = last.time - first.time := by
  simp only [duration, hfirst, hlast]

/-- The runs of a trace whose time never goes back are a timeline from its first sample to its last. -/
theorem Timeline.of_spans {w : Trace ℝ} (hordered : w.Ordered) {first last : Sample ℝ}
    (hfirst : w.head? = some first) (hlast : w.getLast? = some last)
    {runs : List (RunSummary ℝ)} {spans : List Span}
    (hon : List.Forall₂ (RunSummary.On w) runs spans) (hlaid : LaidOut w.length 0 spans) :
    Timeline first.time last.time runs := by
  rw [List.head?_eq_getElem?] at hfirst
  rw [List.getLast?_eq_getElem?] at hlast
  apply Timeline.of_on hordered _ hon hlaid
  · exact hordered.time_le (Nat.zero_le _) hfirst hlast
  · intro i x _ hx
    exact hordered.time_le (Nat.zero_le i) hfirst hx
  · intro x hx
    obtain ⟨i, hi, rfl⟩ := List.getElem_of_mem hx
    exact hordered.time_le (Nat.le_sub_one_of_lt hi) (List.getElem?_eq_getElem hi) hlast

/-- A window of a recording whose time never goes back is analyzed into runs that have the times of
the spans of its mask and are a timeline inside the window. -/
theorem analyze_window_timeline (r : Recording ℝ) (hordered : r.samples.Ordered)
    (start stop rate : ℝ) (p : Params ℝ) (a : Analysis ℝ)
    (h : analyze (r.window start stop rate) p = .ok a) :
    ∃ s first last, segment (r.window start stop rate).values p = .ok s ∧
      List.Forall₂ (RunSummary.On (r.window start stop rate)) a.runs s.mask.spans ∧
      (r.window start stop rate).head? = some first ∧
      (r.window start stop rate).getLast? = some last ∧
      Timeline first.time last.time a.runs ∧
      (a.runs.map RunSummary.duration).sum ≤ (r.window start stop rate).duration := by
  have hwindow := hordered.sublist (r.window_sublist start stop rate)
  set w := r.window start stop rate
  obtain ⟨s, partition, hs, hpartition, rfl⟩ := analyze_eq_ok_iff.mp h
  have hne : w ≠ [] := (exists_analyze_iff.mp ⟨_, h⟩).2
  have hfirst := List.head?_eq_some_head hne
  have hlast := List.getLast?_eq_some_getLast hne
  have hlaid : LaidOut w.length 0 s.mask.spans := by
    rw [← (RunPartition.ofMask_eq_ok_iff.mp hpartition).1]
    exact s.mask.laidOut_spans
  have hon := Analysis.on_spans hpartition
  have htimeline := Timeline.of_spans hwindow hfirst hlast hon hlaid
  refine ⟨s, _, _, hs, hon, hfirst, hlast, htimeline, ?_⟩
  rw [Trace.duration_of_ends hfirst hlast]
  exact htimeline.total

/-- A recording whose clock stands still twice. All samples but the first are in the window below. -/
def pausedRecording : Recording ℝ :=
  ⟨[⟨0, 2⟩, ⟨1, 2⟩, ⟨1, 2⟩, ⟨2, 0⟩, ⟨2, 2⟩], List.cons_ne_nil _ _⟩

theorem analyze_window_timeline_of_paused :
    pausedRecording.samples.Ordered ∧ ∃ a,
      analyze (pausedRecording.window (Scalar.ofNat 1 / 2) (Scalar.ofNat 5 / 2) 2)
        ⟨2, 2, 0, 1, 0, 0⟩ = .ok a ∧ Timeline 1 2 a.runs := by
  have hordered : pausedRecording.samples.Ordered := by
    simp only [Trace.Ordered, Trace.times, pausedRecording, List.map_cons, List.map_nil]
    norm_num
  have hwindow : pausedRecording.window (Scalar.ofNat 1 / 2) (Scalar.ofNat 5 / 2) 2 =
      [⟨1, 2⟩, ⟨1, 2⟩, ⟨2, 0⟩, ⟨2, 2⟩] :=
    pausedRecording.window_real two_pos (show 1 ≤ 5 by decide) (Nat.le_refl 5)
  have hvalid : (⟨2, 2, 0, 1, 0, 0⟩ : Params ℝ).validate = .ok () := by
    simp [Params.validate_eq_ok_iff]
  have hne : pausedRecording.window (Scalar.ofNat 1 / 2) (Scalar.ofNat 5 / 2) 2 ≠ [] := by
    rw [hwindow]
    exact List.cons_ne_nil _ _
  obtain ⟨a, ha⟩ := exists_analyze_iff.mpr ⟨hvalid, hne⟩
  obtain ⟨_, first, last, _, _, hfirst, hlast, htimeline, _⟩ :=
    analyze_window_timeline pausedRecording hordered _ _ _ _ a ha
  rw [hwindow] at hfirst hlast
  obtain rfl := Option.some.inj hfirst
  obtain rfl := Option.some.inj hlast
  exact ⟨hordered, a, ha, htimeline⟩

end EnergyProfile
