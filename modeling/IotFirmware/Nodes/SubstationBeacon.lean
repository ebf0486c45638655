import IotFirmware.Nodes.SubstationBackoff

/-! How often a substation beacons, against a true clock that `millis()` wraps:
no more often than once an interval, and never so late that a node waiting for a
beacon misses one. -/
namespace IotFirmware.SubstationBeacon
open Clock Substation SubstationBackoff

/-- The node at a true time, with the true times of its last look at the beacon's
clock and of the beacons it has sent. -/
structure PacedSubstation where
  node : Substation
  clock : Nat
  lastCheck : Nat
  beacons : List Nat

/-- The node after a setup that succeeded, with this random epoch. -/
def powerOn (link : LoRaLinkConfig) (epoch : UInt32) : PacedSubstation :=
  ⟨substationSetup link ⟨true, true, true, true, true, epoch⟩, 0, 0, []⟩

variable {gap : Nat} {s t : PacedSubstation}

end IotFirmware.SubstationBeacon
