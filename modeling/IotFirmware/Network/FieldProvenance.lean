import IotFirmware.Network.FieldNetwork

/-! Nothing is published that no meter node measured: every payload a gateway
has is one a substation transmitted, made of readings it accepted, each of which
its node was called with. -/
namespace IotFirmware.FieldNetwork
open Network Substation

/-- Where everything in the field comes from, link by link. -/
structure ProvenanceInv (uidOf : Mac → Uid) (f : FieldNetwork) : Prop where
  called : ∀ S, ∀ p ∈ f.accepted S, ∃ m, .called m p ∈ f.net.log ∧ p.uid = uidOf m
  held : ∀ S, HeldInv (f.accepted S) (f.net.stations S)
  stations : ∀ S, ∀ data ∈ f.transmitted (.station S), ∃ q, data = q.toBytes ∧ Vouched (f.accepted S) q
  gateways : ∀ g, ∀ data ∈ f.transmitted (.gateway g), ∃ r ack ok, data = ack.toBytes ∧ .acked r ack ok ∈ f.done g
  acked : ∀ g r ack ok, .acked r ack ok ∈ f.done g →
    ack = ⟨r.payload.uid, r.payload.seq⟩ ∧ ∃ S, r.payload.toBytes ∈ f.transmitted (.station S)

private theorem provenanceInv_start (uidOf : Mac → Uid) : ProvenanceInv uidOf (start uidOf) := by
  refine ⟨?_, fun S => heldInv_boot rfl rfl _, ?_, ?_, ?_⟩ <;> simp [start, accepted, Network.start, transmitted]

theorem mem_accepted {f : FieldNetwork} {S : Mac} {p : Payload} : p ∈ f.accepted S ↔ .accepted S p ∈ f.net.log := by
  simp only [accepted, List.mem_filterMap]
  constructor
  · rintro ⟨e, he, hp⟩
    cases e with
    | accepted T q =>
      by_cases hTS : T = S
      · subst hTS
        obtain rfl : q = p := by simpa [NetEvent.acceptedBy?] using hp
        exact he
      · simp [NetEvent.acceptedBy?, hTS] at hp
    | _ => cases hp
  · exact fun h => ⟨_, h, by simp [NetEvent.acceptedBy?]⟩

section Steps
variable {uidOf : Mac → Uid} {f f' : FieldNetwork} {a : FieldAction}

theorem FieldStep.log_grows (h : FieldStep uidOf f a f') : f.net.log <+: f'.net.log := by
  rcases h.net with he | ⟨b, hb⟩
  · rw [he]
  · obtain ⟨done, hdone⟩ := Network.log_grows hb
    exact ⟨done, hdone.symm⟩

private theorem FieldStep.accepted_grows (h : FieldStep uidOf f a f') (S : Mac) : f.accepted S <+: f'.accepted S :=
  h.log_grows.filterMap _

private theorem FieldStep.air_grows (h : FieldStep uidOf f a f') : f.air <+: f'.air := by
  cases h with
  | relay => exact List.prefix_append _ _
  | gateway => exact List.prefix_append _ _
  | _ => exact List.prefix_rfl

theorem FieldStep.done_grows (h : FieldStep uidOf f a f') (g : Nat) : f.done g <+: f'.done g := by
  cases h.gateway_step g with
  | still _ hdone => rw [hdone]
  | booted _ _ hdone => rw [hdone]
  | acted _ _ hdone => rw [hdone]; exact List.prefix_append _ _

/-- What a station accepts its node was called with. -/
theorem accepted_called {steps : List (Move Network NetAction)} {n : Network}
    (hrun : Run (NetStep uidOf) (Network.start uidOf) steps n) {S : Mac} {p : Payload} (hp : .accepted S p ∈ n.log) :
    ∃ m, .called m p ∈ n.log ∧ p.uid = uidOf m := by
  revert S p
  refine hrun.invariant (fun _ n => ∀ {S p}, .accepted S p ∈ n.log → ∃ m, .called m p ∈ n.log ∧ p.uid = uidOf m)
    (by simp [Network.start]) fun steps n b n' hto ih hs S p hp => ?_
  have hnet := netInv_run hto
  have hold (h : .accepted S p ∈ n.log) : ∃ m, .called m p ∈ n'.log ∧ p.uid = uidOf m := by
    obtain ⟨m, hm, huid⟩ := ih h
    obtain ⟨done, hdone⟩ := Network.log_grows hs
    exact ⟨m, hdone ▸ List.mem_append_left _ hm, huid⟩
  have hnode {m : Mac} {i : LinkInput} (h : .accepted S p ∈ (n.nodeStep m i).log) : .accepted S p ∈ n.log := by
    refine (List.mem_append.mp h).resolve_right fun hnew => ?_
    obtain ⟨e, _, he⟩ := List.mem_map.mp hnew
    cases e <;> cases he
  cases hs with
  | node => exact hold (hnode hp)
  | nodeHears => exact hold (hnode hp)
  | nodeReboots => exact hold hp
  | @station T b _ hown =>
    refine hold ((List.mem_append.mp hp).resolve_right fun hnew => ?_)
    have hchange := (station_change (tableInv_run hto T) hown.fromAir T).2
    generalize (((n.stations T).act b).2.filterMap (Effect.event? T)) = done at hchange hnew
    cases hchange with
    | accepted => exact hown.elim
    | _ => simp at hnew
  | @stationHears T index pkt peerOk _ hheard =>
    rcases List.mem_append.mp hp with hmem | hnew
    · exact hold hmem
    · have hair : FromAir uidOf (.frame pkt.src pkt.data peerOk) := ⟨_, hnet.fromAir hheard⟩
      have hchange := (station_change (tableInv_run hto T) hair T).2
      generalize (((n.stations T).act _).2.filterMap (Effect.event? T)) = done at hchange hnew
      generalize hframe : Substation.Action.frame pkt.src pkt.data peerOk = b at hchange
      cases hchange with
      | @accepted m q ok _ _ _ _ huid =>
        obtain ⟨hsrc, hdata, _⟩ := Substation.Action.frame.inj hframe
        obtain ⟨rfl, rfl⟩ : S = T ∧ p = q := by simpa using hnew
        have hpkt : pkt = readingPacket m pkt.dst p := by
          cases pkt
          simp_all [readingPacket]
        have hsent : .sent (readingPacket m pkt.dst p) ∈ n.log := hpkt ▸ List.mem_of_getElem? hheard.1
        exact ⟨m, List.mem_append_left _ ((ackInv_run hto).reading_called m _ p hsent), huid⟩
      | _ => simp at hnew
  | stationBoots => exact hold (by simpa [stationBoot] using hp)

/-- What `receivePacket` hands on is a packet of a `Payload`'s size, whole. -/
theorem receivePacket_some {bufLen : Nat} {rx : LoRaLink.RadioReceive} {len : Int} {buf : List UInt8}
    {events : List RadioEvent} (h : LoRaLink.receivePacket bufLen rx = (len, some buf, events)) :
    rx.packetSize = payloadSize ∧ LoRaLink.readFrame rx.packet payloadSize = some buf ∧ buf.length = payloadSize := by
  unfold LoRaLink.receivePacket at h
  split at h
  · cases h
  · split at h
    · cases h
    · split at h
      · cases h
      · rename_i hsize
        split at h
        · cases h
        · cases hread : LoRaLink.readFrame rx.packet payloadSize with
          | none => simp [hread] at h
          | some bytes =>
            simp only [hread, Prod.mk.injEq, Option.some.injEq] at h
            obtain rfl : bytes = buf := h.2.1
            refine ⟨not_not.mp hsize, rfl, ?_⟩
            simp only [LoRaLink.readFrame] at hread
            split at hread
            · obtain rfl := Option.some.inj hread
              simpa using ‹_›
            · cases hread

/-- A gateway ACKs only a whole `Payload` it has just received. -/
theorem acked_of_step {g : Gateway} {b : GatewayAction} {r : GatewayReading} {ack : AckPayload} {ok : Bool}
    (h : .acked r ack ok ∈ (g.step b).2) : ack = ⟨r.payload.uid, r.payload.seq⟩ ∧
      ∃ radio, (∃ rssi snr, b = .rx radio rssi snr) ∧ radio.packetSize = payloadSize ∧
        LoRaLink.readFrame radio.packet payloadSize = some r.payload.toBytes := by
  cases b with
  | loop connected publishOk =>
    simp only [Gateway.step, Gateway.gatewayLoop] at h
    split at h
    · split at h <;> simp at h
    · split at h
      · simp at h
      · split at h
        · simp at h
        · split at h <;> simp at h
    · simp at h
  | rx radio rssi snr =>
    simp only [Gateway.step, Gateway.loraRxTask] at h
    split at h
    · split at h <;> simp at h
    · cases hreceive : LoRaLink.receivePacket payloadSize radio with
      | mk len rest =>
        obtain ⟨_ | buf, events⟩ := rest
        · simp [hreceive] at h
        · obtain ⟨hsize, hread, hlen⟩ := receivePacket_some hreceive
          rcases LoRaLink.receivePacket_cases payloadSize radio with ⟨buf', he⟩ | ⟨_, he⟩
          · obtain ⟨rfl, hbuf, rfl⟩ : len = _ ∧ some buf = some buf' ∧ events = _ := by
              simpa using hreceive.symm.trans he
            obtain rfl := Option.some.inj hbuf
            simp only [hreceive] at h
            obtain ⟨rfl, rfl, rfl⟩ : r = ⟨Payload.ofBytes buf, rssi, snr⟩ ∧ ack = _ ∧ ok = _ := by simpa using h
            exact ⟨rfl, radio, ⟨rssi, snr, rfl⟩, hsize, by rw [hread, Payload.toBytes_ofBytes hlen]⟩
          · simp [hreceive] at he
    · simp at h

/-- A packet of the size asked for is read whole. -/
theorem readFrame_whole {packet : List UInt8} {len : Nat} (h : packet.length = len) :
    LoRaLink.readFrame packet len = some packet := by
  rw [LoRaLink.readFrame, if_pos h.ge, List.take_of_length_le h.le]

/-- A packet of a `Payload`'s size comes from a station. -/
theorem ProvenanceInv.heard {f : FieldNetwork} (hinv : ProvenanceInv uidOf f) {size : Int} {packet data : List UInt8}
    (hears : f.Hears size packet) (hsize : size = payloadSize)
    (hread : LoRaLink.readFrame packet payloadSize = some data) : ∃ S, data ∈ f.transmitted (.station S) := by
  subst hsize
  rcases hears with hnone | ⟨⟨source, bytes⟩, hpkt, hlen, hbytes⟩
  · exact absurd hnone (by decide)
  · have hlen' : bytes.length = payloadSize := by exact_mod_cast hlen.symm
    subst hbytes
    obtain rfl := Option.some.inj ((readFrame_whole hlen').symm.trans hread)
    cases source with
    | station S => exact ⟨S, mem_transmitted.mpr hpkt⟩
    | gateway g =>
      obtain ⟨r, ack, ok, rfl, _⟩ := hinv.gateways g _ (mem_transmitted.mpr hpkt)
      simp at hlen'

private theorem FieldStep.transmitted_grows (h : FieldStep uidOf f a f') (source : AirSource) :
    f.transmitted source <+: f'.transmitted source :=
  h.air_grows.filterMap _

private theorem provenanceInv_step (hinv : ProvenanceInv uidOf f) (hs : FieldStep uidOf f a f')
    (hcalled : ∀ S, ∀ p ∈ f'.accepted S, ∃ m, .called m p ∈ f'.net.log ∧ p.uid = uidOf m) :
    ProvenanceInv uidOf f' := by
  have hvouched {S : Mac} {q : Payload} (h : Vouched (f.accepted S) q) : Vouched (f'.accepted S) q := by
    obtain ⟨more, hmore⟩ := hs.accepted_grows S
    exact hmore ▸ h.append more
  refine ⟨hcalled, fun S => ?_, fun S data hdata => ?_, fun g data hdata => ?_, fun g r ack ok hacked => ?_⟩
  · cases hs.station S with
    | still hstation haccepted => exact hstation ▸ haccepted ▸ hinv.held S
    | booted _ hstation =>
      rw [hstation]
      obtain ⟨hidle, hbuffer⟩ := substationSetup_idle _ _
      exact heldInv_boot hbuffer hidle _
    | acted _ hstation haccepted =>
      rw [hstation, haccepted]
      exact heldInv_act (hinv.held S) _
  · have hold (h : data ∈ f.transmitted (.station S)) : ∃ q, data = q.toBytes ∧ Vouched (f'.accepted S) q := by
      obtain ⟨q, he, hq⟩ := hinv.stations S data h
      exact ⟨q, he, hvouched hq⟩
    cases hs.station S with
    | still _ _ hair => exact hold (hair ▸ hdata)
    | booted _ _ _ hair => exact hold (hair ▸ hdata)
    | @acted b _ _ _ hair =>
      rw [hair] at hdata
      refine (List.mem_append.mp hdata).elim hold fun hnew => ?_
      cases b with
      | relay poll now beginAt =>
        simp only [act, relayStep_transmitted] at hnew
        split at hnew
        · rename_i hphase
          exact ⟨_, List.mem_singleton.mp hnew, hvouched ((hinv.held S).flight (by simp [hphase]))⟩
        · cases hnew
      | beacon => simp [act_transmitted] at hnew
      | frame => simp [act_transmitted] at hnew
  · have hold (h : data ∈ f.transmitted (.gateway g)) :
        ∃ r ack ok, data = ack.toBytes ∧ .acked r ack ok ∈ f'.done g := by
      obtain ⟨r, ack, ok, he, hacked⟩ := hinv.gateways g data h
      exact ⟨r, ack, ok, he, (hs.done_grows g).subset hacked⟩
    cases hs.gateway_step g with
    | still _ _ hair => exact hold (hair ▸ hdata)
    | booted _ _ _ hair => exact hold (hair ▸ hdata)
    | acted _ _ hdone hair =>
      rw [hair] at hdata
      refine (List.mem_append.mp hdata).elim hold fun hnew => ?_
      obtain ⟨e, he, hdata⟩ := List.mem_filterMap.mp hnew
      cases e with
      | acked r ack ok => exact ⟨r, ack, ok, (Option.some.inj hdata).symm, hdone ▸ List.mem_append_right _ he⟩
      | _ => cases hdata
  · have hold (h : .acked r ack ok ∈ f.done g) :
        ack = ⟨r.payload.uid, r.payload.seq⟩ ∧ ∃ S, r.payload.toBytes ∈ f'.transmitted (.station S) := by
      obtain ⟨he, S, hair⟩ := hinv.acked g r ack ok h
      exact ⟨he, S, (hs.transmitted_grows _).subset hair⟩
    cases hs.gateway_step g with
    | still _ hdone => exact hold (hdone ▸ hacked)
    | booted _ _ hdone => exact hold (hdone ▸ hacked)
    | acted hears _ hdone =>
      rw [hdone] at hacked
      refine (List.mem_append.mp hacked).elim hold fun hnew => ?_
      obtain ⟨he, radio, ⟨rssi, snr, rfl⟩, hsize, hread⟩ := acked_of_step hnew
      obtain ⟨S, hair⟩ := hinv.heard hears hsize hread
      exact ⟨he, S, (hs.transmitted_grows _).subset hair⟩

theorem provenanceInv_run {moves : List (Move FieldNetwork FieldAction)}
    (hrun : Run (FieldStep uidOf) (start uidOf) moves f) : ProvenanceInv uidOf f := by
  refine hrun.invariant (fun _ => ProvenanceInv uidOf) (provenanceInv_start uidOf) fun moves m a t hto ih hs => ?_
  obtain ⟨steps, hsteps⟩ := net_run (hto.snoc hs)
  exact provenanceInv_step ih hs fun S p hp => accepted_called hsteps (mem_accepted.mp hp)

end Steps
end IotFirmware.FieldNetwork
