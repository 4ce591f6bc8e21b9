import EnergyProfile.RoundTrip

/-!
# Timing of round trips

The quantities that are reported of round trips: the time of each stage, what is left for the
network, and the share that encryption has. A quantity that a round trip does not have, such as a
crypto time without crypto spans, does not count.
-/

namespace EnergyProfile

set_option autoImplicit false

variable {α : Type}

inductive TimingMetric where
  | whole
  | sensorSend
  | sensorReceive
  | storage
  | gatewayOutbound
  | gatewayInbound
  | network
  | networkShare
  | storageNetwork
  | link
  | sensorCrypto
  | storageCrypto
  | sensorCryptoShare
  | storageCryptoShare
  deriving DecidableEq

namespace TimingMetric

def all : List TimingMetric :=
  [whole, sensorSend, sensorReceive, storage, gatewayOutbound, gatewayInbound, network,
    networkShare, storageNetwork, link, sensorCrypto, storageCrypto, sensorCryptoShare,
    storageCryptoShare]

/-- The quantity of a round trip, unless it is not defined for it. -/
def of? [Scalar α] (r : RoundTrip α) : TimingMetric → Option α
  | whole => some r.wholeTime
  | sensorSend => some r.sendTime
  | sensorReceive => some r.receiveTime
  | storage => some r.storageTime
  | gatewayOutbound => some r.outboundTime
  | gatewayInbound => some r.inboundTime
  | network => some r.networkTime
  | networkShare => r.share? r.networkTime
  | storageNetwork => some r.storageNetworkTime
  | link => some r.linkTime
  | sensorCrypto => r.sensorCryptoTime?
  | storageCrypto => r.storageCryptoTime?
  | sensorCryptoShare => r.sensorCryptoTime?.bind r.share?
  | storageCryptoShare => r.storageCryptoTime?.bind r.share?

def label : TimingMetric → String
  | whole => "Round Trip Time [ms]"
  | sensorSend => "Sensor Processing Time [ms]"
  | sensorReceive => "Sensor Receive Processing Time [ms]"
  | storage => "Data-Storage Processing Time [ms]"
  | gatewayOutbound => "Gateway Upstream Processing Time [ms]"
  | gatewayInbound => "Gateway Downstream Processing Time [ms]"
  | network => "Hardware and Network Time [ms]"
  | networkShare => "Hardware and Network Time [% of RTT]"
  | storageNetwork => "Gateway to Data-Storage to Gateway Time [ms]"
  | link => "BLE Transmission Time [ms]"
  | sensorCrypto => "Sensor Crypto Time [ms]"
  | storageCrypto => "Data-Storage Crypto Time [ms]"
  | sensorCryptoShare => "Sensor Crypto Time [% of RTT]"
  | storageCryptoShare => "Data-Storage Crypto Time [% of RTT]"

end TimingMetric

/-- Mean and spread of every quantity that is defined for some round trip. -/
def summarizeTiming [Scalar α] (trips : List (RoundTrip α)) : List (TimingMetric × Stat α) :=
  (TimingMetric.all.map fun metric => (metric, Stat.of (trips.filterMap (metric.of? ·)))).filter
    fun entry => !entry.2.isEmpty

end EnergyProfile
