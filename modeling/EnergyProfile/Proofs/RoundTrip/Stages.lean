import EnergyProfile.RoundTripLog
import Mathlib.Data.List.Basic

/-!
# Round trips by stage

The spans of a round trip and the tables of a log are asked for by the stage that they belong to. A
stage that has no table in a log has no span in any of its round trips, so what is said of all stages
at once covers the six that are always there and the crypto pairs alike.
-/

namespace EnergyProfile

set_option autoImplicit false

/-- The other stage of a crypto pair. -/
def Stage.partner? : Stage → Option Stage
  | encrypt => some decrypt
  | decrypt => some encrypt
  | storageEncrypt => some storageDecrypt
  | storageDecrypt => some storageEncrypt
  | _ => none

def RoundTrip.span? {α : Type} (r : RoundTrip α) : Stage → Option (ClockSpan α)
  | .whole => some r.whole
  | .sensorSend => some r.sensorSend
  | .sensorReceive => some r.sensorReceive
  | .gatewayOutbound => some r.gatewayOutbound
  | .gatewayInbound => some r.gatewayInbound
  | .storage => some r.storage
  | .encrypt => r.sensorCrypto.map CryptoSpans.encrypt
  | .decrypt => r.sensorCrypto.map CryptoSpans.decrypt
  | .storageEncrypt => r.storageCrypto.map CryptoSpans.encrypt
  | .storageDecrypt => r.storageCrypto.map CryptoSpans.decrypt

theorem RoundTrip.mem_cryptoSpans_iff {α : Type} (pair : Option (CryptoSpans α))
    (s : ClockSpan α) : s ∈ cryptoSpans pair ↔
      pair.map CryptoSpans.encrypt = some s ∨ pair.map CryptoSpans.decrypt = some s := by
  cases pair with
  | none => simp [cryptoSpans]
  | some c => simp [cryptoSpans, eq_comm]

theorem RoundTrip.mem_spans_iff {α : Type} (r : RoundTrip α) (s : ClockSpan α) :
    s ∈ r.spans ↔ ∃ stage, r.span? stage = some s := by
  simp only [spans, List.mem_append, mem_cryptoSpans_iff, List.mem_cons, List.not_mem_nil, or_false]
  constructor
  · rintro (((rfl | rfl | rfl | rfl | rfl | rfl) | h | h) | h | h)
    · exact ⟨.whole, rfl⟩
    · exact ⟨.sensorSend, rfl⟩
    · exact ⟨.sensorReceive, rfl⟩
    · exact ⟨.gatewayOutbound, rfl⟩
    · exact ⟨.gatewayInbound, rfl⟩
    · exact ⟨.storage, rfl⟩
    · exact ⟨.encrypt, h⟩
    · exact ⟨.decrypt, h⟩
    · exact ⟨.storageEncrypt, h⟩
    · exact ⟨.storageDecrypt, h⟩
  · rintro ⟨stage, h⟩
    cases stage <;> simp_all [span?]

namespace RoundTripLog

def table? (log : RoundTripLog) : Stage → Option StageLog
  | .whole => some log.whole
  | .sensorSend => some log.sensorSend
  | .sensorReceive => some log.sensorReceive
  | .gatewayOutbound => some log.gatewayOutbound
  | .gatewayInbound => some log.gatewayInbound
  | .storage => some log.storage
  | .encrypt => log.sensorCrypto.map Prod.fst
  | .decrypt => log.sensorCrypto.map Prod.snd
  | .storageEncrypt => log.storageCrypto.map Prod.fst
  | .storageDecrypt => log.storageCrypto.map Prod.snd

theorem span?_trip (log : RoundTripLog) (i : Nat) (stage : Stage) :
    (log.trip i).span? stage = (log.table? stage).map fun table => StageLog.row table i := by
  cases stage <;>
    simp only [RoundTrip.span?, table?, trip, cryptoRow, Option.map_map, Option.map_some] <;> rfl

theorem pairLength_le_iff (pair : Option (StageLog × StageLog)) (n : Nat) :
    pairLength pair ≤ n ↔ (∀ table, pair.map Prod.fst = some table → table.length ≤ n) ∧
      ∀ table, pair.map Prod.snd = some table → table.length ≤ n := by
  cases pair with
  | none => simp [pairLength]
  | some tables =>
    simp only [pairLength, Option.map_some, Option.some.injEq, forall_eq']
    exact Nat.max_le

theorem length_le_iff (log : RoundTripLog) (n : Nat) :
    log.length ≤ n ↔ ∀ stage table, log.table? stage = some table → table.length ≤ n := by
  simp only [length, List.foldl_cons, List.foldl_nil, Nat.max_le, pairLength_le_iff]
  constructor
  · rintro ⟨⟨⟨⟨⟨⟨⟨⟨_, hwhole⟩, hsend⟩, hreceive⟩, houtbound⟩, hinbound⟩, hstorage⟩, hsensor⟩, hcrypto⟩
      stage table h
    cases stage with
    | encrypt => exact hsensor.1 table h
    | decrypt => exact hsensor.2 table h
    | storageEncrypt => exact hcrypto.1 table h
    | storageDecrypt => exact hcrypto.2 table h
    | _ =>
      obtain rfl := Option.some.inj h
      assumption
  · intro h
    refine ⟨⟨⟨⟨⟨⟨⟨⟨Nat.zero_le n, ?_⟩, ?_⟩, ?_⟩, ?_⟩, ?_⟩, ?_⟩, ?_⟩, ?_⟩
    · exact h .whole _ rfl
    · exact h .sensorSend _ rfl
    · exact h .sensorReceive _ rfl
    · exact h .gatewayOutbound _ rfl
    · exact h .gatewayInbound _ rfl
    · exact h .storage _ rfl
    · exact ⟨h .encrypt, h .decrypt⟩
    · exact ⟨h .storageEncrypt, h .storageDecrypt⟩

theorem length_table_le {log : RoundTripLog} {stage : Stage} {table : StageLog}
    (h : log.table? stage = some table) : table.length ≤ log.length :=
  (log.length_le_iff log.length).mp (Nat.le_refl _) stage table h

theorem exists_length_table (log : RoundTripLog) :
    ∃ stage table, log.table? stage = some table ∧ table.length = log.length := by
  by_contra hnone
  have hshort (stage : Stage) (table : StageLog) (h : log.table? stage = some table) :
      table.length < log.length :=
    Nat.lt_of_le_of_ne (length_table_le h) fun heq => hnone ⟨stage, table, h, heq⟩
  have hpos : 0 < log.length := Nat.zero_lt_of_lt (hshort .whole _ rfl)
  have hless : log.length ≤ log.length - 1 := by
    apply (log.length_le_iff _).mpr
    intro stage table h
    exact Nat.le_sub_one_of_lt (hshort stage table h)
  omega

end RoundTripLog

end EnergyProfile
