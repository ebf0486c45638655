import IotFirmware.Network.FieldDrain
import IotFirmware.Nodes.SubstationOrder

/-! Order across the whole field: over any run, reboots included, a substation
never transmits a reading of a node after a later one of that node. -/
namespace IotFirmware.FieldNetwork
open Network Substation ReadingBuffer

variable {uidOf : Mac → Uid} {f : FieldNetwork} {moves : List (Move FieldNetwork FieldAction)}

def relayed (f : FieldNetwork) (S : Mac) : List Payload := (f.transmitted (.station S)).map Payload.ofBytes

private theorem ordered_run (hrun : Run (FieldStep uidOf) (start uidOf) moves f) (S : Mac) (u : Uid) :
    Ordered u (f.accepted S) (f.relayed S) (f.net.stations S) := by
  refine hrun.invariant (fun _ f => Ordered u (f.accepted S) (f.relayed S) (f.net.stations S))
    (ordered_start rfl rfl u) fun _ f a f' _ ih hs => ?_
  cases hs.station S with
  | still hstation haccepted hair => rwa [hstation, haccepted, relayed, hair]
  | booted _ hstation haccepted hair =>
    obtain ⟨hidle, hbuffer⟩ := substationSetup_idle _ _
    rw [hstation, haccepted, relayed, hair]
    exact ih.reboot hbuffer hidle
  | acted _ hstation haccepted hair =>
    rw [hstation, haccepted, relayed, hair, List.map_append]
    exact ordered_act ih _

/-- At the end of every run the readings of one node that a station has
transmitted are readings it accepted from that node, in the order of acceptance:
repeated, perhaps, or skipped, but none after a later one. -/
theorem relayed_in_order (hrun : Run (FieldStep uidOf) (start uidOf) moves f) (S : Mac) (u : Uid) :
    InOrder (readingsOf u (f.relayed S)) (readingsOf u (f.accepted S)) := by
  obtain ⟨_, last, h⟩ := ordered_run hrun S u
  exact ⟨last, h.sent_order⟩

/-- The reading of the first `send`, relayed. -/
theorem relayed_in_order_firstSend : ∃ (f : FieldNetwork) (S : Mac) (u : Uid), readingsOf u (f.relayed S) ≠ [] ∧
    InOrder (readingsOf u (f.relayed S)) (readingsOf u (f.accepted S)) := by
  let m : Mac := Vector.replicate 6 2
  let S : Mac := Vector.replicate 6 3
  obtain ⟨moves, f, hrun, _, _, hair, _⟩ :=
    run_firstRelay uidOfMac (m := m) (S := S) (by decide) (p := ⟨uidOfMac m, 1, 0, 0, 0, 1, 1, 1⟩) rfl
  let out := (f.net.stations S).loraLink.pending
  have hrelayed : out ∈ f.relayed S := List.mem_map.mpr ⟨_, mem_transmitted.mpr hair, Payload.ofBytes_toBytes out⟩
  have hreading : out.reading ∈ readingsOf out.uid (f.relayed S) :=
    List.mem_map_of_mem (List.mem_filter.mpr ⟨hrelayed, by simp⟩)
  exact ⟨f, S, out.uid, List.ne_nil_of_mem hreading, relayed_in_order hrun S out.uid⟩

end IotFirmware.FieldNetwork
