import IotFirmware.Network.FleetRecovery
import IotFirmware.Network.FieldCustody

/-! From the meter to MQTT: what the whole system owes a reading, whatever
reboots, power cuts and losses a run has. -/
namespace IotFirmware

namespace Fleet
open FieldNetwork

/-- A node's first reading, about to be relayed to a gateway at rest. -/
theorem run_toRelay (S : Mac) : ∃ moves F p out b,
    Run (FleetStep steadyNode) (start steadyNode fun _ => 0) moves F ∧ (∀ x ∈ moves, x.label.Saved) ∧
      F.OnlyCalled (Vector.replicate 6 2) p ∧ (F.field.net.stations S).ready = true ∧
      (F.field.net.stations S).loraLink.phase = .idle ∧
      readingBufferPeek (F.field.net.stations S).buffer (F.field.net.stations S).inFlight = (true, out, b) ∧
      FieldNetwork.View F.field F.field.net.stations S (F.field.net.stations S) 0 (Gateway.gatewaySetup true)
        ((F.field.done 0).filterMap Gateway.publishedReading) := by
  obtain ⟨moves, F, p, hrun, hsaved, honly, _, hheld, hready, hidle, hgateway⟩ :=
    run_firstSend (m := Vector.replicate 6 2) (S := S) (by decide)
  obtain ⟨steps, hsteps⟩ := net_run (fleetInv_run hrun).run
  obtain ⟨_, hrelay⟩ := Network.relayInv_net hsteps S
  obtain ⟨out, b, hpeek⟩ :=
    ReadingBuffer.peek_of_readings hrelay.valid (List.ne_nil_of_mem hheld) (F.field.net.stations S).inFlight
  exact ⟨moves, F, p, out, b, hrun, hsaved, honly, hready, hidle, hpeek, (Function.update_eq_self _ _).symm,
    congrFun hgateway 0, rfl⟩

section Delivery
variable {prog : Mac → NodeProgram} {stored : Mac → UInt32} {F : Fleet prog}
  {moves : List (Move (Fleet prog) (FleetAction prog))}

/-- While no flash write fails and no node draws 2^32 numbers, a reading whose
`send` succeeded had been accepted by the node's substation before, and is still
buffered there, was overwritten in a full ring, was lost with a reboot, or is in
the custody of a gateway. -/
theorem fleet_custody (hrun : Run (FleetStep prog) (start prog stored) moves F)
    (hinj : Function.Injective (uidOf prog)) (hsaved : ∀ x ∈ moves, x.label.Saved)
    (hfew : ∀ m, (F.field.called m).length + F.cuts m < 2 ^ 32)
    {past rest : List (Move FieldNetwork FieldAction)} {x : Move FieldNetwork FieldAction}
    (hx : fieldMoves moves = past ++ x :: rest) {m : Mac} {p : Payload} {attempt : Nat}
    (hret : .returned m (.send p attempt) true ∈ x.after.net.log.drop x.before.net.log.length) :
    ∃ front y back, past = front ++ y :: back ∧ Accepts y (x.before.net.nodes m).substationMac p ∧
      Fate (fieldMoves moves) (back ++ x :: rest) F.field (x.before.net.nodes m).substationMac p :=
  field_custody (fleetInv_run hrun).run hinj (distinctSeqs_run hrun hsaved hfew) hx hret

/-- The first reading of a node. -/
theorem fleet_custody_firstSend : ∃ (moves : List (Move (Fleet steadyNode) (FleetAction steadyNode)))
    (F : Fleet steadyNode) (S : Mac) (p : Payload), ∃ front y back x rest,
      fieldMoves moves = (front ++ y :: back) ++ x :: rest ∧ Accepts y S p ∧
        Fate (fieldMoves moves) (back ++ x :: rest) F.field S p := by
  obtain ⟨moves, F, p, hrun, hsaved, honly, hret, _⟩ :=
    run_firstSend (m := Vector.replicate 6 2) (S := Vector.replicate 6 3) (by decide)
  obtain ⟨x, hx, hnew⟩ := exists_logs (fleetInv_run hrun).run hret
  obtain ⟨past, rest, hsplit⟩ := List.append_of_mem hx
  obtain ⟨front, y, back, rfl, haccepts, hfate⟩ := fleet_custody hrun uidOfMac_injective hsaved
    (fun k => Nat.lt_of_succ_lt (honly.few k)) hsplit hnew
  exact ⟨moves, F, _, p, front, y, back, x, rest, hsplit, haccepts, hfate⟩

/-- While no flash write fails and no node draws 2^32 numbers, a station's relay
reports an ACK only for a reading that some gateway has received, whole, and ACKed. -/
theorem fleet_relay_acked (hrun : Run (FleetStep prog) (start prog stored) moves F)
    (hinj : Function.Injective (uidOf prog)) (hsaved : ∀ x ∈ moves, x.label.Saved)
    (hfew : ∀ m, (F.field.called m).length + F.cuts m < 2 ^ 32) {S : Mac} {poll : RadioPoll}
    (hears : F.field.Hears poll.packetSize poll.packet) {now beginAt : UInt32}
    (hacked : .polled .acked ∈ ((F.field.net.stations S).relayStep poll now beginAt).2) :
    ∃ g r ok,
      .acked r ⟨(F.field.net.stations S).inFlight.uid, (F.field.net.stations S).inFlight.seq⟩ ok ∈ F.field.done g ∧
      r.payload.uid = (F.field.net.stations S).inFlight.uid ∧
      r.payload.reading = (F.field.net.stations S).inFlight.reading :=
  relay_acked (fleetInv_run hrun).run hinj (distinctSeqs_run hrun hsaved hfew) hears hacked

/-- The ACK of the first reading relayed. -/
theorem fleet_relay_acked_firstSend : ∃ (F : Fleet steadyNode) (S : Mac), ∃ g r ok,
    .acked r ⟨(F.field.net.stations S).inFlight.uid, (F.field.net.stations S).inFlight.seq⟩ ok ∈ F.field.done g ∧
      r.payload.uid = (F.field.net.stations S).inFlight.uid ∧
      r.payload.reading = (F.field.net.stations S).inFlight.reading := by
  let S : Mac := Vector.replicate 6 3
  obtain ⟨moves, F, p, out, b, hrun, hsaved, honly, hready, hidle, hpeek, v⟩ := run_toRelay S
  obtain ⟨relayed, f', link, hrelayed, hphase, hpending, v', _, hack, hlog⟩ := run_relayed uidOfMac v hready hidle hpeek
  have hair : Run (AirStep (uidOf steadyNode)) F.field relayed f' := hrelayed.mono fun _ _ _ h => airStep_of_drain h
  obtain ⟨more, hmore⟩ := field_run S F hair
  have hacked : .polled .acked ∈
      ((f'.net.stations S).relayStep (pollOf (AckPayload.mk out.uid out.seq).toBytes) 0 0).2 := by
    rw [v'.station]
    simp [Substation.relayStep, LoRaLink.pollSend, hphase, hpending, readAck_pollOf]
  exact ⟨_, S, fleet_relay_acked (hrun.append (hmore.mono fun _ _ _ h => h.1)) uidOfMac_injective
    (List.forall_mem_append.mpr ⟨hsaved, saved_restart hmore⟩)
    (fun k => by simpa [FieldNetwork.called, hlog] using Nat.lt_of_succ_lt (honly.few k)) (Hears.of_mem hack) hacked⟩

/-- Whatever a gateway publishes some node has handed to `send`, under its own name. -/
theorem called_of_published (hrun : Run (FleetStep prog) (start prog stored) moves F)
    (hinj : Function.Injective (uidOf prog)) {g : Nat} {r : GatewayReading}
    (hpublished : .published r true ∈ F.field.done g) :
    ∃ m, .called m r.payload ∈ F.field.net.log ∧ r.payload.owner = (prog m).owner := by
  have hinv := fleetInv_run hrun
  obtain ⟨S, m, p, p', huid, ⟨hcalled, _, _, hreading⟩, hcalled', _, _, hidentity⟩ :=
    published_provenance hinv.run hinj hpublished
  have howner {q : Payload} (h : .called m q ∈ F.field.net.log) : q.owner = (prog m).owner :=
    (hinv.devices m).owner_eq q (mem_called.mpr h)
  have hsame : r.payload.owner = (prog m).owner :=
    Prod.ext huid (hidentity.symm.trans (congrArg Prod.snd (howner hcalled')))
  have hp : p = r.payload := Payload.ext_owner ((howner hcalled).trans hsame.symm) hreading
  exact ⟨m, hp ▸ hcalled, hsame⟩

/-- A node's first reading has been published. -/
theorem run_published : ∃ moves F p out,
    Run (FleetStep steadyNode) (start steadyNode fun _ => 0) moves F ∧ (∀ x ∈ moves, x.label.Saved) ∧
      F.OnlyCalled (Vector.replicate 6 2) p ∧ .published (asReceived out) true ∈ F.field.done 0 := by
  let S : Mac := Vector.replicate 6 3
  obtain ⟨moves, F, p, out, b, hrun, hsaved, honly, hready, hidle, hpeek, v⟩ := run_toRelay S
  obtain ⟨relayed, f', _, hrelayed, _, v'⟩ := run_relayOne uidOfMac v hready hidle hpeek
  have hair : Run (AirStep (uidOf steadyNode)) F.field relayed f' := hrelayed.mono fun _ _ _ h => airStep_of_drain h
  obtain ⟨more, hmore⟩ := field_run S F hair
  refine ⟨_, { F with field := f' }, p, out, hrun.append (hmore.mono fun _ _ _ h => h.1),
    List.forall_mem_append.mpr ⟨hsaved, saved_restart hmore⟩, ⟨fun k => ?_, honly.cuts⟩,
    Gateway.mem_published.mp (by rw [v'.published]; simp)⟩
  exact (called_run (fleetInv_run hrun).run hair k).trans (honly.called k)

end Delivery
end Fleet
end IotFirmware
