import EnergyProfile.Proofs.RoundTrip.Rows
import Mathlib.Order.Bounds.Basic

/-!
# Which round trips are kept

A log has as many round trips as its longest table has rows. A round trip is kept if each table that
takes part in the log has a sound span in its row; it then has those spans and no others. The cells of
the files decide all of this, so nothing here speaks of spans that were filled in.
-/

namespace EnergyProfile.RoundTripLog

set_option autoImplicit false

/-- The number of rows of the table of a stage. -/
def rowsIn (tree : FileTree) (directory : Path) (stage : Stage) : Nat :=
  ((tree.read (stagePath directory stage)).toOption.map StageLog.rowCount).getD 0

/-- The table of a stage has this span in a row. -/
def LogsAt (tree : FileTree) (directory : Path) (stage : Stage) (i : Nat) (s : ClockSpan Float) :
    Prop :=
  ∃ bytes, tree.read (stagePath directory stage) = .ok bytes ∧ StageLog.Logs bytes i s

/-- Each table that takes part in a log has a sound span in a row. -/
def SoundRow (tree : FileTree) (directory : Path) (withCrypto : Bool) (i : Nat) : Prop :=
  ∀ stage, attaches tree directory withCrypto stage = true →
    ∃ s, LogsAt tree directory stage i s ∧ s.Sound

/-- A round trip has the spans in a row of the tables that take part in a log, and no others. -/
structure CarriesRow (tree : FileTree) (directory : Path) (withCrypto : Bool) (i : Nat)
    (trip : RoundTrip Float) : Prop where
  attached : ∀ stage, attaches tree directory withCrypto stage = true →
    ∃ s, trip.span? stage = some s ∧ LogsAt tree directory stage i s
  detached : ∀ stage, attaches tree directory withCrypto stage = false →
    trip.span? stage = none

/-- The round trips of a log and those that are kept of them. -/
structure KeepsSoundRows (tree : FileTree) (directory : Path) (withCrypto : Bool)
    (trips kept : List (RoundTrip Float)) (counts : Rejections) : Prop where
  length : IsGreatest {n | ∃ stage, attaches tree directory withCrypto stage = true ∧
    rowsIn tree directory stage = n} trips.length
  rows : ∃ rows : List Nat, rows.Pairwise (· < ·) ∧
    (∀ i, i ∈ rows ↔ SoundRow tree directory withCrypto i) ∧
    List.Forall₂ (fun i trip => trips[i]? = some trip ∧
      CarriesRow tree directory withCrypto i trip) rows kept
  kept : counts.kept = kept.length
  total : counts.kept + counts.removed = trips.length

variable {tree : FileTree} {directory : Path} {withCrypto : Bool} {stage : Stage} {i : Nat}

theorem rowsIn_of_read {bytes : ByteArray}
    (h : tree.read (stagePath directory stage) = .ok bytes) :
    rowsIn tree directory stage = StageLog.rowCount bytes := by
  rw [rowsIn, h]
  rfl

theorem length_eq_rowsIn {table : StageLog}
    (h : stageIn? tree directory stage = .ok (some table)) :
    table.length = rowsIn tree directory stage := by
  obtain ⟨bytes, hread, htable⟩ := (stageIn?_eq_ok h).2 table rfl
  rw [rowsIn_of_read hread, (StageLog.rows_of_ofBytes htable).1]

theorem row_eq_of_logsAt {table : StageLog} {s : ClockSpan Float}
    (h : stageIn? tree directory stage = .ok (some table))
    (hlogs : LogsAt tree directory stage i s) : StageLog.row table i = s := by
  obtain ⟨bytes, hread, htable⟩ := (stageIn?_eq_ok h).2 table rfl
  obtain ⟨found, hfound, hlogs⟩ := hlogs
  obtain rfl := Except.ok.inj (hread.symm.trans hfound)
  exact StageLog.row_eq_of_logs htable hlogs

theorem logsAt_of_sound {table : StageLog}
    (h : stageIn? tree directory stage = .ok (some table))
    (hsound : (StageLog.row table i).Sound) :
    LogsAt tree directory stage i (StageLog.row table i) := by
  obtain ⟨bytes, hread, htable⟩ := (stageIn?_eq_ok h).2 table rfl
  exact ⟨bytes, hread, StageLog.logs_of_sound htable hsound⟩

theorem lt_rowsIn_of_logsAt {s : ClockSpan Float} (h : LogsAt tree directory stage i s) :
    i < rowsIn tree directory stage := by
  obtain ⟨bytes, hread, start, stop, hstart, -⟩ := h
  rw [rowsIn_of_read hread]
  exact StageLog.lt_rowCount_of_cell? hstart

section Loaded

variable {log : RoundTripLog} (hlog : loadIn tree directory withCrypto = .ok log)

include hlog

theorem exists_table_of_attaches (hattached : attaches tree directory withCrypto stage = true) :
    ∃ table, log.table? stage = some table ∧ stageIn? tree directory stage = .ok (some table) := by
  rw [← isSome_table? hlog] at hattached
  obtain ⟨table, htable⟩ := Option.isSome_iff_exists.mp hattached
  exact ⟨table, htable, (read_of_table? hlog htable).2⟩

theorem isGreatest_length : IsGreatest {n | ∃ stage,
    attaches tree directory withCrypto stage = true ∧ rowsIn tree directory stage = n}
      log.length := by
  constructor
  · obtain ⟨stage, table, htable, hlength⟩ := log.exists_length_table
    obtain ⟨hattached, hread⟩ := read_of_table? hlog htable
    exact ⟨stage, hattached, (length_eq_rowsIn hread).symm.trans hlength⟩
  · rintro n ⟨stage, hattached, rfl⟩
    obtain ⟨table, htable, hread⟩ := exists_table_of_attaches hlog hattached
    rw [← length_eq_rowsIn hread]
    exact length_table_le htable

theorem isClean_trip_iff :
    (log.trip i).defects.isClean = true ↔ SoundRow tree directory withCrypto i := by
  rw [RoundTrip.isClean_iff]
  constructor
  · intro hclean stage hattached
    obtain ⟨table, htable, hread⟩ := exists_table_of_attaches hlog hattached
    have hspan : (log.trip i).span? stage = some (StageLog.row table i) := by
      rw [span?_trip, htable, Option.map_some]
    have hsound := hclean _ ((RoundTrip.mem_spans_iff _ _).mpr ⟨stage, hspan⟩)
    exact ⟨_, logsAt_of_sound hread hsound, hsound⟩
  · intro hsound s hs
    obtain ⟨stage, hspan⟩ := (RoundTrip.mem_spans_iff _ _).mp hs
    rw [span?_trip] at hspan
    obtain ⟨table, htable, rfl⟩ := Option.map_eq_some_iff.mp hspan
    obtain ⟨hattached, hread⟩ := read_of_table? hlog htable
    obtain ⟨s, hlogs, hs⟩ := hsound stage hattached
    rwa [row_eq_of_logsAt hread hlogs]

theorem carriesRow_trip (hsound : SoundRow tree directory withCrypto i) :
    CarriesRow tree directory withCrypto i (log.trip i) := by
  constructor
  · intro stage hattached
    obtain ⟨table, htable, hread⟩ := exists_table_of_attaches hlog hattached
    obtain ⟨s, hlogs, -⟩ := hsound stage hattached
    refine ⟨s, ?_, hlogs⟩
    rw [span?_trip, htable, Option.map_some, row_eq_of_logsAt hread hlogs]
  · intro stage hdetached
    rw [← isSome_table? hlog, Option.isSome_eq_false_iff, Option.isNone_iff_eq_none] at hdetached
    rw [span?_trip, hdetached, Option.map_none]

theorem lt_length_of_soundRow (hsound : SoundRow tree directory withCrypto i) :
    i < log.length := by
  obtain ⟨s, hlogs, -⟩ := hsound .whole rfl
  exact (lt_rowsIn_of_logsAt hlogs).trans_le ((isGreatest_length hlog).2 ⟨.whole, rfl, rfl⟩)

end Loaded

theorem length_trips (log : RoundTripLog) : log.trips.length = log.length := by
  rw [trips, List.length_map, List.length_range]

theorem getElem?_trips (log : RoundTripLog) (hi : i < log.length) :
    log.trips[i]? = some (log.trip i) := by
  rw [trips, List.getElem?_map, List.getElem?_range hi, Option.map_some]

theorem filterValid_fst (trips : List (RoundTrip Float)) :
    (filterValid trips).1 = trips.filter fun r => r.defects.isClean := rfl

theorem filterValid_trips (log : RoundTripLog) : (filterValid log.trips).1 =
    ((List.range log.length).filter fun i => (log.trip i).defects.isClean).map log.trip := by
  rw [filterValid_fst, trips, List.filter_map, Function.comp_def]

/-- The round trips that are kept are those whose row is sound, in the order of their rows. -/
theorem loaded_keepsSoundRows {trips : List (RoundTrip Float)}
    (h : loaded tree directory withCrypto = .ok trips) :
    KeepsSoundRows tree directory withCrypto trips (filterValid trips).1 (filterValid trips).2 := by
  rw [loaded_eq] at h
  obtain ⟨log, hlog, rfl⟩ := map_eq_ok_iff.mp h
  constructor
  · rw [length_trips]
    exact isGreatest_length hlog
  · refine ⟨(List.range log.length).filter fun i => (log.trip i).defects.isClean,
      List.pairwise_lt_range.filter _, ?_, ?_⟩
    · intro i
      rw [List.mem_filter, List.mem_range, isClean_trip_iff hlog]
      exact ⟨And.right, fun hsound => ⟨lt_length_of_soundRow hlog hsound, hsound⟩⟩
    · rw [filterValid_trips, List.forall₂_map_right_iff, List.forall₂_same]
      intro i hi
      obtain ⟨hi, hclean⟩ := List.mem_filter.mp hi
      exact ⟨getElem?_trips log (List.mem_range.mp hi),
        carriesRow_trip hlog ((isClean_trip_iff hlog).mp hclean)⟩
  · exact kept_filterValid _
  · exact kept_add_removed_filterValid _

/-- A log of five rows, two of them sound, of which one takes no time. One table has its columns in
another order, one reaches further than the others, and one crypto table stands alone. -/
def unevenLog : FileTree where
  nodes := [(["log"], .directory),
    (["log", "RTT.csv"], spanTable "1000,11000\n1000,12000\n20000,19000\n1000,1000\n"),
    (["log", "S_PROC.csv"], spanTable "1000,2000\n,2000\n1000,2000\n1000,2000\n"),
    (["log", "R_PROC.csv"], spanTable "9500,9900\n9500,9900\n9500,9900\n9500,9500\n"),
    (["log", "GW_US_PROC.csv"], spanTable "3000,3200\n3000,3200\n3000,3200\n3000,3200\n"),
    (["log", "GW_DS_PROC.csv"], spanTable "7200,7500\n7200,7500\n7200,7500\n7200,7500\n"),
    (["log", "DS_PROC.csv"], spanTable "5e6,7e6\n5e6,7e6\n5e6,7e6\n5e6,7e6\n"),
    (["log", "ENC.csv"], spanTable "1100,1200\n1100,1200\n1100,1200\n1100,1200\n1100,1200\n"),
    (["log", "DEC.csv"], .file
      "End_Time,Row,Start_Time\n9800,1,9700\n9800,2,9700\n9800,3,9700\n9800,4,9700\n".toUTF8),
    (["log", "DS_ENC.csv"], spanTable "NaN,0\n")]
  working := []

theorem loaded_keepsSoundRows_of_unevenLog : ∃ trips,
    loaded unevenLog ⟨"log"⟩ true = .ok trips ∧
      (trips.length, (filterValid trips).2) = (5, ⟨2, 3, 2, 0, 1⟩) ∧
      KeepsSoundRows unevenLog ⟨"log"⟩ true trips (filterValid trips).1 (filterValid trips).2 := by
  obtain ⟨trips, h, hcounts⟩ : ∃ trips, loaded unevenLog ⟨"log"⟩ true = .ok trips ∧
      (trips.length, (filterValid trips).2) = (5, ⟨2, 3, 2, 0, 1⟩) :=
    exists_ok_of_toOption (by decide +kernel)
  exact ⟨trips, h, hcounts, loaded_keepsSoundRows h⟩

end EnergyProfile.RoundTripLog
