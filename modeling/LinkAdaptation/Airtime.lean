/-
How long a packet occupies the channel, in microseconds. A rate of `r`
tenths of Mbps moves one byte in `80 / r` microseconds; every packet waits
an interframe space first.
-/
import LinkAdaptation.Outcome

namespace LinkAdaptation

/-- Interframe space of the oldest rates. -/
def longSpace : Float := 50.0

/-- Interframe space of all other rates. -/
def shortSpace : Float := 28.0

/-- Whether a rate is one of the four oldest: 1, 2, 5.5 and 11 Mbps. -/
def isOldest (rate : Rate) : Bool :=
  rate == 10 || rate == 20 || rate == 55 || rate == 110

/-- Airtime of a packet, its interframe space included. -/
def airtime (rate : Rate) (length : UInt16) : Float :=
  length.toFloat * 80.0 / rate.toFloat
    + (if isOldest rate then longSpace else shortSpace)

/-- Airtime of a packet of 1000 bytes with an interframe space of 80. -/
def referenceAirtime (rate : Rate) : Float := 80000.0 / rate.toFloat + 80.0

/-- Airtime of a packet with some overhead, in whole microseconds; what
exceeds 32 bits is the largest such number. -/
def packetTime (rate : Rate) (size : UInt16) (overheadUs : UInt32) : UInt32 :=
  (size.toFloat * 8.0 / mbps rate + overheadUs.toFloat).toUInt32

end LinkAdaptation
