import EnergyProfile.Scalar

/-!
# Masks

A mask says of each sample whether it is high. It is found by a threshold, its short gaps are
closed, and it is carried back to the rate of the recording. Its high samples fall into spans.
-/

namespace EnergyProfile

set_option autoImplicit false

abbrev Mask := List Bool

/-- The samples from `start` up to but not including `stop`. -/
structure Span where
  start : Nat
  stop : Nat
  deriving DecidableEq

def Span.length (s : Span) : Nat := s.stop - s.start

namespace Mask

/-- A sample is high when it lies strictly above the threshold. -/
def threshold {α : Type} [Scalar α] (signal : List α) (limit : α) : Mask :=
  signal.map fun x => Scalar.less limit x

@[simp] theorem length_threshold {α : Type} [Scalar α] (signal : List α) (limit : α) :
    (threshold signal limit).length = signal.length := by
  simp [threshold]

/-- The closing window in samples, at least one. -/
def closingWindow {α : Type} [Scalar α] (seconds rate : α) : Nat :=
  match Scalar.round? (seconds * rate) with
  | some z => if 1 ≤ z then clampSize z else 1
  | none => 1

/-- How many of the first `0, 1, …` samples are high. -/
def tally (m : Mask) : Array Nat :=
  (m.foldl (fun (counts, last) high =>
    let next := if high then last + 1 else last
    (counts.push next, next)) (#[0], 0)).1

/-- The high samples from `first` to `last`, both included, of those that were tallied. -/
def countWithin (counts : Array Nat) (first last : Nat) : Nat :=
  let n := counts.size - 1
  counts.getD (min (last + 1) n) 0 - counts.getD (min first n) 0

/-- High wherever a high sample is within reach. -/
def dilate (m : Mask) (back ahead : Nat) : Mask :=
  let counts := tally m
  (List.range m.length).map fun j => 0 < countWithin counts (j - back) (j + ahead)

/-- High at those of the samples `first, …` where everything within reach is high. -/
def erode (m : Mask) (back ahead first length : Nat) : Mask :=
  let counts := tally m
  (List.range' first length).map fun i =>
    countWithin counts (i - back) (i + ahead) == back + ahead + 1

def padded (m : Mask) (margin : Nat) : Mask :=
  List.replicate margin false ++ m ++ List.replicate margin false

/-- Closes gaps by a dilation followed by an erosion. The window of `g` samples has its origin at
`g / 2`. A margin of a whole window lets the dilation reach beyond the ends of the mask, where
everything is low. -/
def closeGaps (m : Mask) (window : Nat) : Mask :=
  let g := max window 1
  if m = [] ∨ g = 1 then m
  else
    let before := g / 2
    let after := g - 1 - before
    erode (dilate (padded m g) after before) before after g m.length

@[simp] theorem length_dilate (m : Mask) (back ahead : Nat) :
    (dilate m back ahead).length = m.length := by
  simp [dilate]

@[simp] theorem length_erode (m : Mask) (back ahead first length : Nat) :
    (erode m back ahead first length).length = length := by
  simp [erode]

@[simp] theorem length_closeGaps (m : Mask) (window : Nat) :
    (closeGaps m window).length = m.length := by
  simp only [closeGaps]
  split
  · rfl
  · exact length_erode _ _ _ _ _

/-- Repeats each state `q` times, up to `length` samples in all. The last state fills what is left
over. -/
def upsample (m : Mask) (q length : Nat) : Mask :=
  let blocks := m.foldl
    (fun (full : Array Bool) state =>
      full ++ Array.replicate (min (max q 1) (length - full.size)) state) #[]
  (blocks ++ Array.replicate (length - blocks.size) (m.getLast?.getD false)).toList

/-- The maximal stretches of high samples of a mask that begins at sample `i`, where a stretch may
have begun already. -/
def spansFrom : (i : Nat) → (began : Option Nat) → Mask → List Span
  | _, none, [] => []
  | i, some start, [] => [⟨start, i⟩]
  | i, none, true :: rest => spansFrom (i + 1) (some i) rest
  | i, some start, true :: rest => spansFrom (i + 1) (some start) rest
  | i, none, false :: rest => spansFrom (i + 1) none rest
  | i, some start, false :: rest => ⟨start, i⟩ :: spansFrom (i + 1) none rest

/-- The maximal stretches of high samples. -/
def spans (m : Mask) : List Span :=
  spansFrom 0 none m

/-- The mask of `length` samples from `position` on that is high exactly on some spans. -/
def ofSpansFrom : (position : Nat) → List Span → (length : Nat) → Mask
  | position, [], length => List.replicate (length - position) false
  | position, s :: rest, length =>
    List.replicate (s.start - position) false ++ List.replicate s.length true ++
      ofSpansFrom s.stop rest length

def ofSpans (spans : List Span) (length : Nat) : Mask :=
  ofSpansFrom 0 spans length

def highCount (m : Mask) : Nat :=
  m.count true

end Mask

end EnergyProfile
