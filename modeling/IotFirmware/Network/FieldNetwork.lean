import IotFirmware.Network.DeliverySoundness
import IotFirmware.Network.StationBuffers
import IotFirmware.Nodes.GatewayDelivery
import IotFirmware.Nodes.SubstationHoldings

/-! The whole system on the air: meter nodes and substations on ESP-NOW,
substations and gateways on LoRa. A LoRa packet once transmitted may be heard by
any radio at any later time, any number of times or never; its CRC lets nothing
else through. -/
namespace IotFirmware

inductive AirSource where
  | station (S : Mac)
  | gateway (g : Nat)
  deriving DecidableEq, Repr

structure AirPacket where
  source : AirSource
  data : List UInt8
  deriving DecidableEq, Repr

/-- The network, a gateway at every number with all it has done, and every LoRa
transmission so far. -/
structure FieldNetwork where
  net : Network
  gateways : Nat → Gateway
  done : Nat → List GatewayEvent
  air : List AirPacket

inductive FieldAction where
  | espNow (a : NetAction)
  | relay (S : Mac) (poll : RadioPoll) (now beginAt : UInt32)
  | gateway (g : Nat) (a : GatewayAction)
  | gatewayBoots (g : Nat)

def FieldAction.Steady : FieldAction → Prop
  | .espNow a => a.Steady
  | .gatewayBoots _ => False
  | _ => True

def FieldAction.Drains : FieldAction → Prop
  | .relay _ _ _ _ => True
  | .gateway _ _ => True
  | _ => False

theorem FieldAction.Drains.steady {a : FieldAction} (h : a.Drains) : a.Steady := by
  cases a with
  | espNow => exact h.elim
  | gatewayBoots => exact h
  | _ => trivial

def GatewayEvent.transmitted? : GatewayEvent → Option (List UInt8)
  | .acked _ ack _ => some ack.toBytes
  | _ => none

def NetEvent.acceptedBy? (S : Mac) : NetEvent → Option Payload
  | .accepted T p => if T = S then some p else none
  | _ => none

def AirPacket.sentBy? (source : AirSource) (pkt : AirPacket) : Option (List UInt8) :=
  if pkt.source = source then some pkt.data else none

namespace FieldNetwork
open Network

def relayStep (f : FieldNetwork) (S : Mac) (poll : RadioPoll) (now beginAt : UInt32) : FieldNetwork :=
  { f with
    net := f.net.stationStep S (.relay poll now beginAt)
    air := f.air ++ (((f.net.stations S).relayStep poll now beginAt).2.filterMap Effect.transmitted?).map
      (AirPacket.mk (.station S)) }

def gatewayStep (f : FieldNetwork) (g : Nat) (a : GatewayAction) : FieldNetwork :=
  { f with
    gateways := Function.update f.gateways g ((f.gateways g).next a)
    done := Function.update f.done g (f.done g ++ ((f.gateways g).step a).2)
    air := f.air ++ (((f.gateways g).step a).2.filterMap GatewayEvent.transmitted?).map
      (AirPacket.mk (.gateway g)) }

def gatewayBoot (f : FieldNetwork) (g : Nat) : FieldNetwork :=
  { f with gateways := Function.update f.gateways g (Gateway.gatewaySetup true) }

/-- Before any node or substation has booted, and with every gateway up. -/
def start (uidOf : Mac → Uid) : FieldNetwork :=
  ⟨Network.start uidOf, fun _ => Gateway.gatewaySetup true, fun _ => [], []⟩

/-- A radio reports no packet, or one that was transmitted. -/
def Hears (f : FieldNetwork) (packetSize : Int) (packet : List UInt8) : Prop :=
  packetSize ≤ 0 ∨ ∃ pkt ∈ f.air, packetSize = pkt.data.length ∧ packet = pkt.data

def GatewayHears (f : FieldNetwork) : GatewayAction → Prop
  | .rx radio _ _ => f.Hears radio.packetSize radio.packet
  | .loop _ _ => True

inductive FieldStep (uidOf : Mac → Uid) (f : FieldNetwork) : FieldAction → FieldNetwork → Prop
  | espNow {a : NetAction} {n : Network} : NetStep uidOf f.net a n → a.NoRelay →
      FieldStep uidOf f (.espNow a) { f with net := n }
  | relay {S : Mac} {poll : RadioPoll} {now beginAt : UInt32} : (f.net.stations S).ready = true →
      f.Hears poll.packetSize poll.packet →
      FieldStep uidOf f (.relay S poll now beginAt) (f.relayStep S poll now beginAt)
  | gateway {g : Nat} {a : GatewayAction} : f.GatewayHears a → FieldStep uidOf f (.gateway g a) (f.gatewayStep g a)
  | gatewayBoots {g : Nat} : FieldStep uidOf f (.gatewayBoots g) (f.gatewayBoot g)

def SteadyStep (uidOf : Mac → Uid) (f : FieldNetwork) (a : FieldAction) (f' : FieldNetwork) : Prop :=
  FieldStep uidOf f a f' ∧ a.Steady

def DrainStep (uidOf : Mac → Uid) (f : FieldNetwork) (a : FieldAction) (f' : FieldNetwork) : Prop :=
  FieldStep uidOf f a f' ∧ a.Drains

theorem DrainStep.steady {uidOf : Mac → Uid} {f f' : FieldNetwork} {a : FieldAction} (h : DrainStep uidOf f a f') :
    SteadyStep uidOf f a f' := ⟨h.1, h.2.steady⟩

def accepted (f : FieldNetwork) (S : Mac) : List Payload := f.net.log.filterMap (NetEvent.acceptedBy? S)

def transmitted (f : FieldNetwork) (source : AirSource) : List (List UInt8) :=
  f.air.filterMap (AirPacket.sentBy? source)

theorem mem_transmitted {f : FieldNetwork} {source : AirSource} {data : List UInt8} :
    data ∈ f.transmitted source ↔ ⟨source, data⟩ ∈ f.air := by
  simp only [transmitted, List.mem_filterMap, AirPacket.sentBy?]
  constructor
  · rintro ⟨pkt, hpkt, he⟩
    split at he
    · subst source
      obtain rfl := Option.some.inj he
      exact hpkt
    · cases he
  · exact fun h => ⟨_, h, by simp⟩

/-- Everything one step can be to one station. -/
inductive StationStep (f : FieldNetwork) (S : Mac) (a : FieldAction) (f' : FieldNetwork) : Prop
  | still : f'.net.stations S = f.net.stations S → f'.accepted S = f.accepted S →
      f'.transmitted (.station S) = f.transmitted (.station S) → StationStep f S a f'
  | booted {link : LoRaLinkConfig} {r : SetupResults} : a = .espNow (.stationBoots S link r) →
      f'.net.stations S = Substation.substationSetup link r → f'.accepted S = f.accepted S →
      f'.transmitted (.station S) = f.transmitted (.station S) → StationStep f S a f'
  | acted {b : Substation.Action} :
      (∀ poll now beginAt, b = .relay poll now beginAt → f.Hears poll.packetSize poll.packet) →
      f'.net.stations S = ((f.net.stations S).act b).1 →
      f'.accepted S = f.accepted S ++ ((f.net.stations S).act b).2.filterMap Effect.accepted? →
      f'.transmitted (.station S) =
        f.transmitted (.station S) ++ ((f.net.stations S).act b).2.filterMap Effect.transmitted? →
      StationStep f S a f'

inductive GatewayStep (f : FieldNetwork) (g : Nat) (a : FieldAction) (f' : FieldNetwork) : Prop
  | still : f'.gateways g = f.gateways g → f'.done g = f.done g →
      f'.transmitted (.gateway g) = f.transmitted (.gateway g) → GatewayStep f g a f'
  | booted : a = .gatewayBoots g → f'.gateways g = Gateway.gatewaySetup true → f'.done g = f.done g →
      f'.transmitted (.gateway g) = f.transmitted (.gateway g) → GatewayStep f g a f'
  | acted {b : GatewayAction} : f.GatewayHears b → f'.gateways g = (f.gateways g).next b →
      f'.done g = f.done g ++ ((f.gateways g).step b).2 →
      f'.transmitted (.gateway g) = f.transmitted (.gateway g) ++
        ((f.gateways g).step b).2.filterMap GatewayEvent.transmitted? → GatewayStep f g a f'

section Steps
variable {uidOf : Mac → Uid} {f f' : FieldNetwork} {a : FieldAction}

private theorem accepted_event? (S T : Mac) (e : Effect) :
    (e.event? T).bind (NetEvent.acceptedBy? S) = if T = S then e.accepted? else none := by
  cases e with
  | pushed p ok => cases ok <;> simp [Effect.event?, Effect.accepted?, NetEvent.acceptedBy?]
  | _ => simp [Effect.event?, Effect.accepted?, NetEvent.acceptedBy?]

private theorem accepted_stationStep (n : Network) (S T : Mac) (b : Substation.Action) :
    (n.stationStep T b).log.filterMap (NetEvent.acceptedBy? S) = n.log.filterMap (NetEvent.acceptedBy? S) ++
      if T = S then ((n.stations T).act b).2.filterMap Effect.accepted? else [] := by
  simp only [stationStep, List.filterMap_append, List.filterMap_filterMap, accepted_event?]
  split <;> simp

private theorem accepted_nodeStep (n : Network) (S m : Mac) (i : LinkInput) :
    (n.nodeStep m i).log.filterMap (NetEvent.acceptedBy? S) = n.log.filterMap (NetEvent.acceptedBy? S) := by
  have hnone : (((n.nodes m).step i).2.map (LinkEffect.event m)).filterMap (NetEvent.acceptedBy? S) = [] := by
    rw [List.filterMap_map, List.filterMap_eq_nil_iff]
    intro e _
    cases e <;> rfl
  rw [nodeStep, List.filterMap_append, hnone, List.append_nil]

/-- What a station transmits is not what another source does. -/
theorem sentBy?_map (source source' : AirSource) (l : List (List UInt8)) :
    (l.map (AirPacket.mk source')).filterMap (AirPacket.sentBy? source) = if source' = source then l else [] := by
  rw [List.filterMap_map]
  split
  · subst source'
    exact (List.filterMap_congr fun x _ => by simp [AirPacket.sentBy?]).trans List.filterMap_some
  · rename_i hne
    exact List.filterMap_eq_nil_iff.mpr fun x _ => by simp [AirPacket.sentBy?, hne]

theorem FieldStep.station (h : FieldStep uidOf f a f') (S : Mac) : StationStep f S a f' := by
  have hacted {T : Mac} {b : Substation.Action} (hb : ∀ poll now beginAt, b ≠ .relay poll now beginAt) :
      StationStep f S a { f with net := f.net.stationStep T b } := by
    have haccepted := accepted_stationStep f.net S T b
    by_cases hTS : T = S
    · subst hTS
      refine .acted (fun _ _ _ he => absurd he (hb _ _ _)) (by simp [stationStep]) ?_ ?_
      · simpa [accepted] using haccepted
      · simp [transmitted, Substation.act_transmitted _ hb]
    · refine .still (by simp [stationStep, Ne.symm hTS]) ?_ rfl
      simpa [accepted, hTS] using haccepted
  cases h with
  | espNow hs hb =>
    cases hs with
    | node => exact .still rfl (accepted_nodeStep _ _ _ _) rfl
    | nodeHears => exact .still rfl (accepted_nodeStep _ _ _ _) rfl
    | nodeReboots => exact .still rfl rfl rfl
    | station => exact hacted fun poll now beginAt he => hb _ poll now beginAt (by rw [he])
    | stationHears => exact hacted (by simp)
    | @stationBoots T link r =>
      have haccepted : ({ f with net := f.net.stationBoot T link r } : FieldNetwork).accepted S = f.accepted S := by
        simp [accepted, stationBoot, NetEvent.acceptedBy?]
      by_cases hTS : T = S
      · subst hTS
        exact .booted rfl (by simp [stationBoot]) haccepted rfl
      · exact .still (by simp [stationBoot, Ne.symm hTS]) haccepted rfl
  | @relay T poll now beginAt _ hears =>
    have haccepted := accepted_stationStep f.net S T (.relay poll now beginAt)
    by_cases hTS : T = S
    · subst hTS
      refine .acted (b := .relay poll now beginAt) ?_ (by simp [relayStep, stationStep]) ?_ ?_
      · intro poll' now' beginAt' he
        obtain ⟨rfl, rfl, rfl⟩ := Substation.Action.relay.inj he
        exact hears
      · simpa [accepted, relayStep] using haccepted
      · simp only [transmitted, relayStep, List.filterMap_append, sentBy?_map, if_pos, Substation.act]
    · refine .still (by simp [relayStep, stationStep, Ne.symm hTS]) ?_ ?_
      · simpa [accepted, relayStep, hTS] using haccepted
      · have hother : AirSource.station T ≠ .station S := by simpa using hTS
        simp only [transmitted, relayStep, List.filterMap_append, sentBy?_map, if_neg hother, List.append_nil]
  | @gateway g b =>
    have hother : AirSource.gateway g ≠ .station S := by simp
    refine .still rfl rfl ?_
    simp only [transmitted, gatewayStep, List.filterMap_append, sentBy?_map, if_neg hother, List.append_nil]
  | gatewayBoots => exact .still rfl rfl rfl

theorem FieldStep.gateway_step (h : FieldStep uidOf f a f') (g : Nat) : GatewayStep f g a f' := by
  cases h with
  | espNow => exact .still rfl rfl rfl
  | @relay T =>
    have hother : AirSource.station T ≠ .gateway g := by simp
    refine .still rfl rfl ?_
    simp only [transmitted, relayStep, List.filterMap_append, sentBy?_map, if_neg hother, List.append_nil]
  | @gateway k b hears =>
    by_cases hkg : k = g
    · subst hkg
      refine .acted hears (by simp [gatewayStep]) (by simp [gatewayStep]) ?_
      simp only [transmitted, gatewayStep, List.filterMap_append, sentBy?_map, if_pos]
    · have hother : AirSource.gateway k ≠ .gateway g := by simpa using hkg
      refine .still (by simp [gatewayStep, Ne.symm hkg]) (by simp [gatewayStep, Ne.symm hkg]) ?_
      simp only [transmitted, gatewayStep, List.filterMap_append, sentBy?_map, if_neg hother, List.append_nil]
  | @gatewayBoots k =>
    by_cases hkg : k = g
    · subst hkg
      exact .booted rfl (by simp [gatewayBoot]) rfl rfl
    · exact .still (by simp [gatewayBoot, Ne.symm hkg]) rfl rfl

/-- The network takes a step of its own, or none. -/
theorem FieldStep.net (h : FieldStep uidOf f a f') : f'.net = f.net ∨ ∃ b, NetStep uidOf f.net b f'.net := by
  cases h with
  | espNow hs => exact .inr ⟨_, hs⟩
  | relay hready => exact .inr ⟨_, .station hready trivial⟩
  | gateway => exact .inl rfl
  | gatewayBoots => exact .inl rfl

/-- The network of a field run is at the end of a run of its own. -/
theorem net_run {moves : List (Move FieldNetwork FieldAction)} (hrun : Run (FieldStep uidOf) (start uidOf) moves f) :
    ∃ steps, Run (NetStep uidOf) (Network.start uidOf) steps f.net := by
  refine hrun.invariant (fun _ t => ∃ steps, Run (NetStep uidOf) (Network.start uidOf) steps t.net) ⟨[], .nil⟩
    fun _ m a t _ ih hs => ?_
  obtain ⟨steps, hsteps⟩ := ih
  rcases hs.net with he | ⟨b, hb⟩
  · exact ⟨steps, he ▸ hsteps⟩
  · exact ⟨_, hsteps.snoc hb⟩

/-- A run of the network without relay steps is one of the field. -/
theorem espNow_run (f : FieldNetwork) {P : NetAction → Prop} {n n' : Network} {steps : List (Move Network NetAction)}
    (hrun : Run (fun n a n' => NetStep uidOf n a n' ∧ P a) n steps n') (hP : ∀ a, P a → a.NoRelay) :
    ∃ moves, Run (fun f a f' => FieldStep uidOf f a f' ∧ ∃ b, a = .espNow b ∧ P b) { f with net := n } moves
      { f with net := n' } := by
  induction hrun with
  | nil => exact ⟨[], .nil⟩
  | snoc _ hs ih =>
    obtain ⟨moves, hmoves⟩ := ih
    obtain ⟨hstep, hlabel⟩ := hs
    exact ⟨_, hmoves.snoc ⟨.espNow hstep (hP _ hlabel), _, rfl, hlabel⟩⟩

end Steps
end FieldNetwork
end IotFirmware
