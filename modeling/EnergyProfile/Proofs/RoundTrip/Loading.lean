import EnergyProfile.Files.Tree
import EnergyProfile.Proofs.RoundTrip.Stages
import EnergyProfile.Proofs.Steps

/-!
# Loading a log

Loading only looks at the tree of files, so what comes of it is a function of the tree. That function
is written out here beside the loading itself, table by table, and the two are shown to agree. A log
that was loaded then holds the tables of the stages that take part in it and no others.
-/

namespace EnergyProfile.RoundTripLog

set_option autoImplicit false

variable (tree : FileTree) (directory : Path)

def hasStage (stage : Stage) : Bool :=
  (tree.kindOf? (stagePath directory stage)).isSome

def stageIn? (stage : Stage) : Except Error (Option StageLog) :=
  if hasStage tree directory stage then
    match tree.read (stagePath directory stage) with
    | .error fault => .error (.csv (.file fault))
    | .ok bytes => (StageLog.ofBytes (stagePath directory stage) bytes).map some
  else .ok none

def requiredIn (stage : Stage) : Except Error StageLog := do
  match ← stageIn? tree directory stage with
  | some log => return log
  | none => .error (.data (.malformed (.within directory (.missingStage stage.fileStem))))

def pairIn? (withCrypto : Bool) (first second : Stage) :
    Except Error (Option (StageLog × StageLog)) :=
  if withCrypto then do
    let encrypted ← stageIn? tree directory first
    let decrypted ← stageIn? tree directory second
    return encrypted.bind fun e => decrypted.map fun d => (e, d)
  else .ok none

/-- The log without its crypto stages. -/
def plainIn : Except Error RoundTripLog := do
  let whole ← requiredIn tree directory .whole
  let sensorSend ← requiredIn tree directory .sensorSend
  let sensorReceive ← requiredIn tree directory .sensorReceive
  let gatewayOutbound ← requiredIn tree directory .gatewayOutbound
  let gatewayInbound ← requiredIn tree directory .gatewayInbound
  let storage ← requiredIn tree directory .storage
  return ⟨whole, sensorSend, sensorReceive, gatewayOutbound, gatewayInbound, storage, none, none⟩

def loadIn (withCrypto : Bool) : Except Error RoundTripLog := do
  let log ← plainIn tree directory
  let sensorCrypto ← pairIn? tree directory withCrypto .encrypt .decrypt
  let storageCrypto ← pairIn? tree directory withCrypto .storageEncrypt .storageDecrypt
  return { log with sensorCrypto, storageCrypto }

theorem answers_stage? (stage : Stage) :
    Answers (ExceptT.mk (stage? directory stage : StateM FileTree _)) tree
      (stageIn? tree directory stage) := by
  have hexists : (FileAccess.fileExists (stagePath directory stage) : StateM FileTree _) tree =
      (hasStage tree directory stage, tree) := rfl
  have hread : (FileAccess.read (stagePath directory stage) : StateM FileTree _) tree =
      (tree.read (stagePath directory stage), tree) := rfl
  refine (bind_apply_of_eq hexists).trans ?_
  unfold stageIn?
  cases hasStage tree directory stage with
  | false => rfl
  | true =>
    refine (bind_apply_of_eq hread).trans ?_
    cases tree.read (stagePath directory stage) <;> rfl

theorem answers_required (stage : Stage) :
    Answers (required directory stage : ExceptT Error (StateM FileTree) _) tree
      (requiredIn tree directory stage) := by
  apply Answers.bind (answers_stage? tree directory stage)
  rintro (_ | log)
  · rfl
  · rfl

theorem answers_pair? (withCrypto : Bool) (first second : Stage) :
    Answers (pair? directory withCrypto first second : ExceptT Error (StateM FileTree) _) tree
      (pairIn? tree directory withCrypto first second) := by
  unfold pair? pairIn?
  cases withCrypto with
  | false => rfl
  | true =>
    apply Answers.bind (answers_stage? tree directory first)
    intro encrypted
    apply Answers.bind (answers_stage? tree directory second)
    intro decrypted
    exact Answers.pure _ tree

theorem loadIn_eq (withCrypto : Bool) : loadIn tree directory withCrypto = (do
    let whole ← requiredIn tree directory .whole
    let sensorSend ← requiredIn tree directory .sensorSend
    let sensorReceive ← requiredIn tree directory .sensorReceive
    let gatewayOutbound ← requiredIn tree directory .gatewayOutbound
    let gatewayInbound ← requiredIn tree directory .gatewayInbound
    let storage ← requiredIn tree directory .storage
    let sensorCrypto ← pairIn? tree directory withCrypto .encrypt .decrypt
    let storageCrypto ← pairIn? tree directory withCrypto .storageEncrypt .storageDecrypt
    return ⟨whole, sensorSend, sensorReceive, gatewayOutbound, gatewayInbound, storage,
      sensorCrypto, storageCrypto⟩) := by
  simp only [loadIn, plainIn, bind_assoc, pure_bind]

theorem answers_load (withCrypto : Bool) :
    Answers (load directory withCrypto : ExceptT Error (StateM FileTree) _) tree
      (loadIn tree directory withCrypto) := by
  rw [loadIn_eq]
  refine .bind (answers_required tree directory .whole) fun whole => ?_
  refine .bind (answers_required tree directory .sensorSend) fun sensorSend => ?_
  refine .bind (answers_required tree directory .sensorReceive) fun sensorReceive => ?_
  refine .bind (answers_required tree directory .gatewayOutbound) fun gatewayOutbound => ?_
  refine .bind (answers_required tree directory .gatewayInbound) fun gatewayInbound => ?_
  refine .bind (answers_required tree directory .storage) fun storage => ?_
  refine .bind (answers_pair? tree directory withCrypto _ _) fun sensorCrypto => ?_
  refine .bind (answers_pair? tree directory withCrypto _ _) fun storageCrypto => ?_
  exact .pure _ tree

/-- What loading the round trips of a log comes to. -/
def loaded (withCrypto : Bool) : Except Error (List (RoundTrip Float)) :=
  ((loadTrips directory withCrypto : StateM FileTree _) tree).1

theorem loaded_eq (withCrypto : Bool) :
    loaded tree directory withCrypto = (loadIn tree directory withCrypto).map trips := by
  have hrun : loaded tree directory withCrypto =
      ((load directory withCrypto : ExceptT Error (StateM FileTree) _).run tree).1.map trips := rfl
  rw [hrun, answers_load tree directory withCrypto]

/-- Whether the table of a stage takes part in a log. A crypto stage does if it is asked for and both
tables of its pair are there. -/
def attaches (withCrypto : Bool) (stage : Stage) : Bool :=
  match stage.partner? with
  | none => true
  | some other => withCrypto && hasStage tree directory stage && hasStage tree directory other

variable {tree directory}

theorem stageIn?_eq_ok {stage : Stage} {found : Option StageLog}
    (h : stageIn? tree directory stage = .ok found) :
    hasStage tree directory stage = found.isSome ∧ ∀ table, found = some table →
      ∃ bytes, tree.read (stagePath directory stage) = .ok bytes ∧
        StageLog.ofBytes (stagePath directory stage) bytes = .ok table := by
  unfold stageIn? at h
  split at h
  · rename_i hhas
    split at h
    · cases h
    · rename_i bytes hread
      cases htable : StageLog.ofBytes (stagePath directory stage) bytes with
      | error e =>
        rw [htable] at h
        cases h
      | ok table =>
        rw [htable] at h
        obtain rfl := Except.ok.inj h
        refine ⟨hhas, fun _ hsome => ?_⟩
        obtain rfl := Option.some.inj hsome
        exact ⟨bytes, hread, htable⟩
  · rename_i hhas
    obtain rfl := Except.ok.inj h
    refine ⟨eq_false_of_ne_true hhas, fun _ hsome => ?_⟩
    cases hsome

theorem requiredIn_eq_ok_iff {stage : Stage} {table : StageLog} :
    requiredIn tree directory stage = .ok table ↔
      stageIn? tree directory stage = .ok (some table) := by
  constructor
  · intro h
    obtain ⟨found, hfound, h⟩ := bind_eq_ok_iff.mp h
    cases found with
    | none => cases h
    | some log =>
      obtain rfl := Except.ok.inj h
      exact hfound
  · intro h
    exact bind_eq_ok_iff.mpr ⟨some table, h, rfl⟩

theorem attaches_of_partner {stage other : Stage} (h : stage.partner? = some other)
    (withCrypto : Bool) : attaches tree directory withCrypto stage =
      (withCrypto && hasStage tree directory stage && hasStage tree directory other) := by
  rw [attaches, h]

/-- What a log has of a stage: the table that was read, if the stage takes part in it. -/
inductive Takes (tree : FileTree) (directory : Path) (withCrypto : Bool) (stage : Stage) :
    Option StageLog → Prop where
  | attached {table : StageLog} (hattached : attaches tree directory withCrypto stage = true)
      (hread : stageIn? tree directory stage = .ok (some table)) :
      Takes tree directory withCrypto stage (some table)
  | detached (hdetached : attaches tree directory withCrypto stage = false) :
      Takes tree directory withCrypto stage none

theorem Takes.isSome_eq {withCrypto : Bool} {stage : Stage} {found : Option StageLog}
    (h : Takes tree directory withCrypto stage found) :
    found.isSome = attaches tree directory withCrypto stage := by
  cases h with
  | attached hattached _ => rw [hattached, Option.isSome_some]
  | detached hdetached => rw [hdetached, Option.isSome_none]

theorem takes_of_requiredIn {stage : Stage} {table : StageLog} (hrequired : stage.partner? = none)
    (h : requiredIn tree directory stage = .ok table) (withCrypto : Bool) :
    Takes tree directory withCrypto stage (some table) := by
  refine .attached ?_ (requiredIn_eq_ok_iff.mp h)
  rw [attaches, hrequired]

theorem takes_of_pairIn? {withCrypto : Bool} {first second : Stage}
    {pair : Option (StageLog × StageLog)} (hfirst : first.partner? = some second)
    (hsecond : second.partner? = some first)
    (h : pairIn? tree directory withCrypto first second = .ok pair) :
    Takes tree directory withCrypto first (pair.map Prod.fst) ∧
      Takes tree directory withCrypto second (pair.map Prod.snd) := by
  have hattaches : attaches tree directory withCrypto first = _ :=
    attaches_of_partner hfirst withCrypto
  have hpartner : attaches tree directory withCrypto second =
      attaches tree directory withCrypto first := by
    rw [hattaches, attaches_of_partner hsecond, Bool.and_right_comm]
  have hnone (hdetached : attaches tree directory withCrypto first = false) :
      Takes tree directory withCrypto first none ∧ Takes tree directory withCrypto second none :=
    ⟨.detached hdetached, .detached (hpartner.trans hdetached)⟩
  unfold pairIn? at h
  cases withCrypto with
  | false =>
    obtain rfl := Except.ok.inj h
    exact hnone hattaches
  | true =>
    obtain ⟨encrypted, hencrypted, h⟩ := bind_eq_ok_iff.mp h
    obtain ⟨decrypted, hdecrypted, h⟩ := bind_eq_ok_iff.mp h
    obtain rfl := Except.ok.inj h
    rw [(stageIn?_eq_ok hencrypted).1, (stageIn?_eq_ok hdecrypted).1] at hattaches
    rcases encrypted with _ | e
    · exact hnone hattaches
    rcases decrypted with _ | d
    · exact hnone hattaches
    · exact ⟨.attached hattaches hencrypted, .attached (hpartner.trans hattaches) hdecrypted⟩

theorem takes_of_loadIn {withCrypto : Bool} {log : RoundTripLog}
    (h : loadIn tree directory withCrypto = .ok log) (stage : Stage) :
    Takes tree directory withCrypto stage (log.table? stage) := by
  rw [loadIn_eq] at h
  simp only [bind_eq_ok_iff] at h
  obtain ⟨whole, hwhole, send, hsend, receive, hreceive, outbound, houtbound, inbound, hinbound,
    storage, hstorage, sensorCrypto, hsensor, storageCrypto, hcrypto, h⟩ := h
  obtain rfl := Except.ok.inj h
  cases stage with
  | whole => exact takes_of_requiredIn rfl hwhole withCrypto
  | sensorSend => exact takes_of_requiredIn rfl hsend withCrypto
  | sensorReceive => exact takes_of_requiredIn rfl hreceive withCrypto
  | gatewayOutbound => exact takes_of_requiredIn rfl houtbound withCrypto
  | gatewayInbound => exact takes_of_requiredIn rfl hinbound withCrypto
  | storage => exact takes_of_requiredIn rfl hstorage withCrypto
  | encrypt => exact (takes_of_pairIn? rfl rfl hsensor).1
  | decrypt => exact (takes_of_pairIn? rfl rfl hsensor).2
  | storageEncrypt => exact (takes_of_pairIn? rfl rfl hcrypto).1
  | storageDecrypt => exact (takes_of_pairIn? rfl rfl hcrypto).2

theorem read_of_table? {withCrypto : Bool} {log : RoundTripLog} {stage : Stage} {table : StageLog}
    (h : loadIn tree directory withCrypto = .ok log) (htable : log.table? stage = some table) :
    attaches tree directory withCrypto stage = true ∧
      stageIn? tree directory stage = .ok (some table) := by
  have htakes := takes_of_loadIn h stage
  rw [htable] at htakes
  cases htakes with
  | attached hattached hread => exact ⟨hattached, hread⟩

theorem isSome_table? {withCrypto : Bool} {log : RoundTripLog}
    (h : loadIn tree directory withCrypto = .ok log) (stage : Stage) :
    (log.table? stage).isSome = attaches tree directory withCrypto stage :=
  (takes_of_loadIn h stage).isSome_eq

/-- A table of spans as a file. -/
def spanTable (rows : String) : Node :=
  .file ("Start_Time,End_Time\n" ++ rows).toUTF8

end EnergyProfile.RoundTripLog
