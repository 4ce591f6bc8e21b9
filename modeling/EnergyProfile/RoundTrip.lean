import EnergyProfile.Statistics

/-!
# Round trips

A message goes from a sensor through a gateway to a data storage and back. Each stage on the way
is logged as a span between two clock readings: sensor and gateway clocks count microseconds,
storage clocks nanoseconds. Times between stages are derived from the spans, all in milliseconds.
-/

namespace EnergyProfile

set_option autoImplicit false

variable {α : Type}

inductive ClockUnit where
  | microseconds
  | nanoseconds
  deriving DecidableEq

/-- Ticks in a millisecond. -/
def ClockUnit.ticks : ClockUnit → Nat
  | microseconds => 1000
  | nanoseconds => 1000000

structure ClockSpan (α : Type) where
  start : α
  stop : α

namespace ClockSpan

def milliseconds [Scalar α] (s : ClockSpan α) (unit : ClockUnit) : α :=
  (s.stop - s.start) / Scalar.ofNat unit.ticks

/-- A span that was not logged. -/
def missing [Scalar α] : ClockSpan α := ⟨Scalar.undefined, Scalar.undefined⟩

end ClockSpan

inductive Stage where
  | whole
  | sensorSend
  | sensorReceive
  /-- The gateway on the way to the storage. -/
  | gatewayOutbound
  /-- The gateway on the way back to the sensor. -/
  | gatewayInbound
  | storage
  | encrypt
  | decrypt
  | storageEncrypt
  | storageDecrypt
  deriving DecidableEq

namespace Stage

/-- The name of the log of a stage, without its extension. -/
def fileStem : Stage → String
  | whole => "RTT"
  | sensorSend => "S_PROC"
  | sensorReceive => "R_PROC"
  | gatewayOutbound => "GW_US_PROC"
  | gatewayInbound => "GW_DS_PROC"
  | storage => "DS_PROC"
  | encrypt => "ENC"
  | decrypt => "DEC"
  | storageEncrypt => "DS_ENC"
  | storageDecrypt => "DS_DEC"

def clock : Stage → ClockUnit
  | storage | storageEncrypt | storageDecrypt => .nanoseconds
  | _ => .microseconds

end Stage

structure CryptoSpans (α : Type) where
  encrypt : ClockSpan α
  decrypt : ClockSpan α

def CryptoSpans.milliseconds [Scalar α] (c : CryptoSpans α) (unit : ClockUnit) : α :=
  c.encrypt.milliseconds unit + c.decrypt.milliseconds unit

/-- The spans of one round trip. A side that does not encrypt has no crypto spans. -/
structure RoundTrip (α : Type) where
  whole : ClockSpan α
  sensorSend : ClockSpan α
  sensorReceive : ClockSpan α
  gatewayOutbound : ClockSpan α
  gatewayInbound : ClockSpan α
  storage : ClockSpan α
  sensorCrypto : Option (CryptoSpans α)
  storageCrypto : Option (CryptoSpans α)

/-- What is wrong with the readings of a round trip. Several things can be. -/
structure Defects where
  nonFinite : Bool
  zero : Bool
  startAfterEnd : Bool
  deriving DecidableEq

def Defects.isClean (d : Defects) : Bool :=
  !(d.nonFinite || d.zero || d.startAfterEnd)

namespace RoundTrip

def cryptoSpans : Option (CryptoSpans α) → List (ClockSpan α)
  | some c => [c.encrypt, c.decrypt]
  | none => []

def spans (r : RoundTrip α) : List (ClockSpan α) :=
  [r.whole, r.sensorSend, r.sensorReceive, r.gatewayOutbound, r.gatewayInbound, r.storage] ++
    cryptoSpans r.sensorCrypto ++ cryptoSpans r.storageCrypto

variable [Scalar α]

open Scalar

/-- A reading has to be finite and other than zero, and a span must not end before it starts. -/
def defects (r : RoundTrip α) : Defects where
  nonFinite := r.spans.any fun s => !isFinite s.start || !isFinite s.stop
  zero := r.spans.any fun s => equal s.start (ofNat 0) || equal s.stop (ofNat 0)
  startAfterEnd := r.spans.any fun s => less s.stop s.start

def wholeTime (r : RoundTrip α) : α := r.whole.milliseconds Stage.whole.clock

def sendTime (r : RoundTrip α) : α := r.sensorSend.milliseconds Stage.sensorSend.clock

def receiveTime (r : RoundTrip α) : α := r.sensorReceive.milliseconds Stage.sensorReceive.clock

def outboundTime (r : RoundTrip α) : α :=
  r.gatewayOutbound.milliseconds Stage.gatewayOutbound.clock

def inboundTime (r : RoundTrip α) : α :=
  r.gatewayInbound.milliseconds Stage.gatewayInbound.clock

def storageTime (r : RoundTrip α) : α := r.storage.milliseconds Stage.storage.clock

def networkTime (r : RoundTrip α) : α :=
  r.wholeTime - r.sendTime - r.receiveTime - r.inboundTime - r.outboundTime - r.storageTime

/-- From gateway to storage and back, without the storage stage. -/
def storageNetworkTime (r : RoundTrip α) : α :=
  (ClockSpan.mk r.gatewayOutbound.stop r.gatewayInbound.start).milliseconds .microseconds -
    r.storageTime

/-- The radio link: the round trip without everything behind the gateway's first and last reading
and without the sensor. -/
def linkTime (r : RoundTrip α) : α :=
  r.wholeTime -
    (ClockSpan.mk r.gatewayOutbound.start r.gatewayInbound.stop).milliseconds .microseconds -
    r.sendTime - r.receiveTime

def sensorCryptoTime? (r : RoundTrip α) : Option α :=
  r.sensorCrypto.map fun c => c.milliseconds .microseconds

def storageCryptoTime? (r : RoundTrip α) : Option α :=
  r.storageCrypto.map fun c => c.milliseconds .nanoseconds

/-- A time as a percentage of the round trip. -/
def share? (r : RoundTrip α) (time : α) : Option α := percentOf time r.wholeTime

end RoundTrip

/-- How many round trips were kept and removed, and how many failed each check. -/
structure Rejections where
  kept : Nat
  removed : Nat
  nonFinite : Nat
  zero : Nat
  startAfterEnd : Nat
  deriving DecidableEq

/-- The round trips without defects, and the count of the others by defect. -/
def filterValid [Scalar α] (trips : List (RoundTrip α)) : List (RoundTrip α) × Rejections :=
  let kept := trips.filter fun r => r.defects.isClean
  (kept, {
    kept := kept.length
    removed := trips.length - kept.length
    nonFinite := trips.countP fun r => r.defects.nonFinite
    zero := trips.countP fun r => r.defects.zero
    startAfterEnd := trips.countP fun r => r.defects.startAfterEnd })

end EnergyProfile
