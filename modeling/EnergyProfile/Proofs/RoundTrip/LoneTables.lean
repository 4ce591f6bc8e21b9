import EnergyProfile.Proofs.RoundTrip.Loading

/-!
# Crypto tables that are not used

Without crypto stages no crypto table is looked at. With them, a crypto table that has no partner is
still read before it is left out: the round trips do not change, but a fault in a table that nobody
uses refuses the whole log.
-/

namespace EnergyProfile.RoundTripLog

set_option autoImplicit false

/-- Two trees agree on the tables that every log needs. -/
def SameRequired (tree other : FileTree) (directory : Path) : Prop :=
  ∀ stage : Stage, stage.partner? = none →
    other.kindOf? (stagePath directory stage) = tree.kindOf? (stagePath directory stage) ∧
      other.read (stagePath directory stage) = tree.read (stagePath directory stage)

/-- No crypto table has its partner beside it. -/
def WithoutPairs (tree : FileTree) (directory : Path) : Prop :=
  ∀ first second : Stage, first.partner? = some second → hasStage tree directory first = true →
    hasStage tree directory second = false

/-- Why the table of a stage cannot be read, if it is there. -/
def tableFault? (tree : FileTree) (directory : Path) (stage : Stage) : Option Error :=
  fault? (stageIn? tree directory stage)

/-- The crypto stages, in the order in which they are read. -/
def cryptoStages : List Stage := [.encrypt, .decrypt, .storageEncrypt, .storageDecrypt]

variable {tree other : FileTree} {directory : Path}

theorem stageIn?_congr (h : SameRequired tree other directory) {stage : Stage}
    (hrequired : stage.partner? = none) :
    stageIn? other directory stage = stageIn? tree directory stage := by
  obtain ⟨hkind, hread⟩ := h stage hrequired
  rw [stageIn?, stageIn?, hasStage, hasStage, hkind, hread]

theorem plainIn_congr (h : SameRequired tree other directory) :
    plainIn other directory = plainIn tree directory := by
  have hrequired (stage : Stage) (hstage : stage.partner? = none) :
      requiredIn other directory stage = requiredIn tree directory stage := by
    rw [requiredIn, requiredIn, stageIn?_congr h hstage]
  rw [plainIn, plainIn, hrequired .whole rfl, hrequired .sensorSend rfl,
    hrequired .sensorReceive rfl, hrequired .gatewayOutbound rfl, hrequired .gatewayInbound rfl,
    hrequired .storage rfl]

theorem loaded_congr (h : SameRequired tree other directory) :
    loaded other directory false = loaded tree directory false := by
  rw [loaded_eq, loaded_eq, loadIn, loadIn, plainIn_congr h]
  rfl

theorem pairIn?_withoutPairs (h : WithoutPairs tree directory) {first second : Stage}
    (hpartner : first.partner? = some second) : pairIn? tree directory true first second =
      ([first, second].findSome? (tableFault? tree directory)).elim (.ok none) .error := by
  rw [pairIn?, if_pos rfl]
  simp only [List.findSome?_cons, tableFault?]
  cases hfirst : stageIn? tree directory first with
  | error e => rfl
  | ok encrypted =>
    cases hsecond : stageIn? tree directory second with
    | error e => rfl
    | ok decrypted =>
      cases encrypted with
      | none => rfl
      | some table =>
        have hmissing := h first second hpartner (stageIn?_eq_ok hfirst).1
        rw [(stageIn?_eq_ok hsecond).1, Option.isSome_eq_false_iff,
          Option.isNone_iff_eq_none] at hmissing
        rw [hmissing]
        rfl

theorem findSome?_cryptoStages {β : Type} (f : Stage → Option β) : cryptoStages.findSome? f =
    ([Stage.encrypt, .decrypt].findSome? f).or
      ([Stage.storageEncrypt, .storageDecrypt].findSome? f) := by
  rw [← List.findSome?_append]
  rfl

/-- The round trips are those without crypto stages, unless a lone table cannot be read. -/
theorem loaded_withoutPairs (h : WithoutPairs tree directory) :
    loaded tree directory true = loaded tree directory false >>= fun trips =>
      (cryptoStages.findSome? (tableFault? tree directory)).elim (.ok trips) .error := by
  rw [loaded_eq, loaded_eq, findSome?_cryptoStages, loadIn, loadIn, pairIn?_withoutPairs h rfl,
    pairIn?_withoutPairs h rfl]
  cases plainIn tree directory with
  | error e => rfl
  | ok log =>
    cases [Stage.encrypt, .decrypt].findSome? (tableFault? tree directory) with
    | some e => rfl
    | none =>
      cases [Stage.storageEncrypt, .storageDecrypt].findSome? (tableFault? tree directory) <;> rfl

theorem mem_cryptoStages_iff (stage : Stage) : stage ∈ cryptoStages ↔ stage.partner? ≠ none := by
  cases stage <;> decide

theorem findSome?_tableFault?_eq_none_iff :
    cryptoStages.findSome? (tableFault? tree directory) = none ↔
      ∀ stage : Stage, stage.partner? ≠ none → ∃ found, stageIn? tree directory stage = .ok found := by
  simp only [List.findSome?_eq_none_iff, mem_cryptoStages_iff, tableFault?, fault?_eq_none_iff]

theorem withoutPairs_iff : WithoutPairs tree directory ↔
    (hasStage tree directory .encrypt && hasStage tree directory .decrypt) = false ∧
      (hasStage tree directory .storageEncrypt && hasStage tree directory .storageDecrypt) =
        false := by
  simp only [Bool.and_eq_false_imp]
  constructor
  · intro h
    exact ⟨h .encrypt .decrypt rfl, h .storageEncrypt .storageDecrypt rfl⟩
  · rintro ⟨hsensor, hstorage⟩ first second hpartner hfirst
    cases first with
    | encrypt =>
      obtain rfl := Option.some.inj hpartner
      exact hsensor hfirst
    | decrypt =>
      obtain rfl := Option.some.inj hpartner
      exact eq_false_of_ne_true fun hthere => by simp [hsensor hthere] at hfirst
    | storageEncrypt =>
      obtain rfl := Option.some.inj hpartner
      exact hstorage hfirst
    | storageDecrypt =>
      obtain rfl := Option.some.inj hpartner
      exact eq_false_of_ne_true fun hthere => by simp [hstorage hthere] at hfirst
    | _ => cases hpartner

/-- Crypto tables that are not asked for make no difference. Those that are asked for and have no
partner make one only by a fault. -/
theorem loaded_of_unusedTables (tree : FileTree) (directory : Path) :
    (∀ other, SameRequired tree other directory →
      loaded other directory false = loaded tree directory false) ∧
    (WithoutPairs tree directory →
      loaded tree directory true = (loaded tree directory false >>= fun trips =>
        (cryptoStages.findSome? (tableFault? tree directory)).elim (.ok trips) .error) ∧
      (loaded tree directory true = loaded tree directory false ↔
        (∃ e, loaded tree directory false = .error e) ∨
          ∀ stage : Stage, stage.partner? ≠ none →
            ∃ found, stageIn? tree directory stage = .ok found)) := by
  refine ⟨fun other h => loaded_congr h, fun h => ⟨loaded_withoutPairs h, ?_⟩⟩
  rw [loaded_withoutPairs h, ← findSome?_tableFault?_eq_none_iff]
  cases loaded tree directory false with
  | error e => exact ⟨fun _ => .inl ⟨e, rfl⟩, fun _ => rfl⟩
  | ok trips =>
    cases hfault : cryptoStages.findSome? (tableFault? tree directory) with
    | none => exact ⟨fun _ => .inr rfl, fun _ => rfl⟩
    | some e =>
      constructor
      · intro heq
        cases heq
      · rintro (⟨_, heq⟩ | heq)
        · cases heq
        · cases heq

/-- A log of one round trip with an encryption table and none for decryption. -/
def loneLog (encryption : Node) : FileTree where
  nodes := [(["log"], .directory), (["log", "RTT.csv"], spanTable "1000,11000\n"),
    (["log", "S_PROC.csv"], spanTable "1000,2000\n"),
    (["log", "R_PROC.csv"], spanTable "10500,11000\n"),
    (["log", "GW_US_PROC.csv"], spanTable "3000,3200\n"),
    (["log", "GW_DS_PROC.csv"], spanTable "7200,7500\n"),
    (["log", "DS_PROC.csv"], spanTable "5000000,7000000\n"), (["log", "ENC.csv"], encryption)]
  working := []

/-- An encryption table that reaches further than the log makes no more difference than a directory
in its place that is not asked for. -/
theorem loaded_of_unusedTables_of_longer :
    WithoutPairs (loneLog (spanTable "1100,1200\n,\n")) ⟨"log"⟩ ∧
      SameRequired (loneLog (spanTable "1100,1200\n,\n")) (loneLog .directory) ⟨"log"⟩ ∧
      loaded (loneLog (spanTable "1100,1200\n,\n")) ⟨"log"⟩ true =
        loaded (loneLog .directory) ⟨"log"⟩ false := by
  have halone : WithoutPairs (loneLog (spanTable "1100,1200\n,\n")) ⟨"log"⟩ :=
    withoutPairs_iff.mpr (by decide +kernel)
  have hsame : SameRequired (loneLog (spanTable "1100,1200\n,\n")) (loneLog .directory) ⟨"log"⟩ := by
    intro stage hrequired
    cases stage with
    | encrypt | decrypt | storageEncrypt | storageDecrypt => cases hrequired
    | _ => exact ⟨by decide +kernel, by decide +kernel⟩
  have hread : ∀ stage : Stage, stage.partner? ≠ none → ∃ found,
      stageIn? (loneLog (spanTable "1100,1200\n,\n")) ⟨"log"⟩ stage = .ok found :=
    findSome?_tableFault?_eq_none_iff.mp (Option.isNone_iff_eq_none.mp (by decide +kernel))
  obtain ⟨hunasked, hlone⟩ := loaded_of_unusedTables (loneLog (spanTable "1100,1200\n,\n")) ⟨"log"⟩
  exact ⟨halone, hsame, ((hlone halone).2.mpr (.inr hread)).trans (hunasked _ hsame).symm⟩

/-- An encryption table without the end of a span refuses the log although nobody asks for it. -/
theorem loaded_ne_of_incomplete :
    WithoutPairs (loneLog (.file "Start_Time\n1100\n".toUTF8)) ⟨"log"⟩ ∧
      loaded (loneLog (.file "Start_Time\n1100\n".toUTF8)) ⟨"log"⟩ true ≠
        loaded (loneLog (.file "Start_Time\n1100\n".toUTF8)) ⟨"log"⟩ false := by
  refine ⟨withoutPairs_iff.mpr (by decide +kernel), fun heq => ?_⟩
  have hwith : (loaded (loneLog (.file "Start_Time\n1100\n".toUTF8)) ⟨"log"⟩ true).isOk = false := by
    decide +kernel
  have hwithout : (loaded (loneLog (.file "Start_Time\n1100\n".toUTF8)) ⟨"log"⟩ false).isOk = true := by
    decide +kernel
  rw [heq, hwithout] at hwith
  cases hwith

end EnergyProfile.RoundTripLog
