import EnergyProfile.Proofs.Exact
import EnergyProfile.RoundTrip

/-!
# The balance of a round trip

A round trip consists of its five processing stages, of the radio link and of the way between gateway
and storage. The last two are not logged: their times are derived from readings of other stages. Over
exact arithmetic all parts add up to the whole. No reading has to be in order or of any sign for that,
and no span has to lie inside another.
-/

namespace EnergyProfile

set_option autoImplicit false

/-- A third reading of the same clock splits the time between two readings. -/
theorem ClockSpan.milliseconds_split (first middle last : ℝ) (unit : ClockUnit) :
    (ClockSpan.mk first last).milliseconds unit =
      (ClockSpan.mk first middle).milliseconds unit +
        (ClockSpan.mk middle last).milliseconds unit := by
  unfold milliseconds
  rw [← add_div, add_comm, sub_add_sub_cancel]

namespace RoundTrip

/-- The time from the first to the last reading of the gateway is that of its own two stages and, in
between, that of the storage and the way there and back. -/
theorem turnaround_eq (r : RoundTrip ℝ) :
    (ClockSpan.mk r.gatewayOutbound.start r.gatewayInbound.stop).milliseconds .microseconds =
      r.outboundTime + (r.storageNetworkTime + r.storageTime) + r.inboundTime := by
  have houtbound := ClockSpan.milliseconds_split r.gatewayOutbound.start r.gatewayOutbound.stop
    r.gatewayInbound.stop .microseconds
  have hinbound := ClockSpan.milliseconds_split r.gatewayOutbound.stop r.gatewayInbound.start
    r.gatewayInbound.stop .microseconds
  rw [houtbound, hinbound, storageNetworkTime, sub_add_cancel, ← add_assoc]
  rfl

theorem linkTime_eq (r : RoundTrip ℝ) :
    r.linkTime = r.wholeTime - r.sendTime - r.receiveTime - r.outboundTime - r.inboundTime -
      r.storageTime - r.storageNetworkTime := by
  rw [linkTime, turnaround_eq]
  ring

/-- What is left for the network is the link and the way to the storage, and with the stages that
process this is the whole. -/
theorem times_balance (r : RoundTrip ℝ) :
    r.networkTime = r.linkTime + r.storageNetworkTime ∧
      r.wholeTime = r.sendTime + r.receiveTime + r.outboundTime + r.inboundTime + r.storageTime +
        r.linkTime + r.storageNetworkTime := by
  have hlink := linkTime_eq r
  constructor
  · rw [networkTime]
    linarith
  · linarith

end RoundTrip

end EnergyProfile
