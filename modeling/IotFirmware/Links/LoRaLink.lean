import IotFirmware.Interfaces.SharedPayload

/-! The Transmitter that adds ACKs and retries on top of the LoRa radio. A send
runs in steps: each `pollSend` moves it one phase on. -/
namespace IotFirmware

inductive LoRaSendStatus where
  | idle
  | pending
  | acked
  | failed
  deriving DecidableEq, Repr

inductive SendPhase where
  | idle
  | transmit
  | awaitAck
  | backoff
  deriving DecidableEq, Repr

structure LoRaLinkConfig where
  maxRetries : UInt8
  ackTimeoutMs : UInt32
  deriving DecidableEq, Repr

def sendBackoffMs : UInt32 := 500

structure LoRaLink where
  config : LoRaLinkConfig
  pending : Payload
  attempt : UInt8
  phase : SendPhase
  phaseStart : UInt32
  deriving DecidableEq, Repr

/-- What the radio and the clock answer during one `pollSend`: whether a
transmission went out, the packet the radio has (its size as reported and the
bytes it then hands out), and the two possible `millis()` readings. -/
structure RadioPoll where
  sendOk : Bool
  packetSize : Int
  packet : List UInt8
  checkAt : UInt32
  enterAt : UInt32
  deriving DecidableEq, Repr

inductive RadioEvent where
  | transmitted (data : List UInt8) (ok : Bool)
  | ackRead (ack : AckPayload)
  deriving DecidableEq, Repr

namespace LoRaLink

def new (config : LoRaLinkConfig) : LoRaLink where
  config := config
  pending := Payload.ofBytes []
  attempt := 0
  phase := .idle
  phaseStart := 0

/-- Reads exactly `len` bytes of the current packet, or fails when it runs dry. -/
def readFrame (packet : List UInt8) (len : Nat) : Option (List UInt8) :=
  if len ≤ packet.length then some (packet.take len) else none

def enterPhase (link : LoRaLink) (next : SendPhase) (now : UInt32) : LoRaLink :=
  { link with phase := next, phaseStart := now }

def beginSend (link : LoRaLink) (buf : List UInt8) (now : UInt32) : Bool × LoRaLink :=
  if buf.length ≠ payloadSize then (false, link)
  else if link.phase ≠ .idle then (false, link)
  else (true, ({ link with pending := Payload.ofBytes buf, attempt := 0 }).enterPhase .transmit now)

/-- The ACK a poll reads while awaiting one, if a packet of its size holds one. -/
def readAck (poll : RadioPoll) : Option AckPayload :=
  if poll.packetSize = ackPayloadSize then (readFrame poll.packet ackPayloadSize).map AckPayload.ofBytes
  else none

def pollSend (link : LoRaLink) (poll : RadioPoll) : LoRaSendStatus × LoRaLink × List RadioEvent :=
  match link.phase with
  | .idle => (.idle, link, [])
  | .transmit =>
    let link := { link with attempt := link.attempt + 1 }
    let sent := RadioEvent.transmitted link.pending.toBytes poll.sendOk
    if poll.sendOk then (.pending, link.enterPhase .awaitAck poll.enterAt, [sent])
    else (.pending, link.enterPhase .backoff poll.enterAt, [sent])
  | .awaitAck =>
    let ack := readAck poll
    let events := (ack.map RadioEvent.ackRead).toList
    if ack = some ⟨link.pending.uid, link.pending.seq⟩ then (.acked, { link with phase := .idle }, events)
    else if poll.checkAt - link.phaseStart ≥ link.config.ackTimeoutMs then
      (.pending, link.enterPhase .backoff poll.enterAt, events)
    else (.pending, link, events)
  | .backoff =>
    if poll.checkAt - link.phaseStart < sendBackoffMs then (.pending, link, [])
    else if link.attempt ≥ link.config.maxRetries then (.failed, { link with phase := .idle }, [])
    else (.pending, link.enterPhase .transmit poll.enterAt, [])

/-- Polls until the send is over. The polls given may end before it does. -/
def sendLoop (link : LoRaLink) : List RadioPoll → Option (LoRaSendStatus × LoRaLink)
  | [] => none
  | poll :: polls =>
    match link.pollSend poll with
    | (.pending, link, _) => sendLoop link polls
    | (status, link, _) => some (status, link)

def sendPacket (link : LoRaLink) (buf : List UInt8) (now : UInt32) (polls : List RadioPoll) :
    Option (Bool × LoRaLink) :=
  match link.beginSend buf now with
  | (false, link) => some (false, link)
  | (true, link) => (sendLoop link polls).map fun (status, link) => (status = .acked, link)

structure RadioReceive where
  packetSize : Int
  packet : List UInt8
  sendOk : Bool
  deriving DecidableEq, Repr

/-- Takes one received `Payload` and sends its ACK. Returns the C result, the
bytes written to the caller's buffer on success, and what went over the radio. -/
def receivePacket (bufLen : Nat) (rx : RadioReceive) : Int × Option (List UInt8) × List RadioEvent :=
  if rx.packetSize ≤ 0 then (-1, none, [])
  else if rx.packetSize = ackPayloadSize then (-1, none, [])
  else if rx.packetSize ≠ payloadSize then (-1, none, [])
  else if bufLen < payloadSize then (-2, none, [])
  else match readFrame rx.packet payloadSize with
    | none => (-1, none, [])
    | some buf =>
      let received := Payload.ofBytes buf
      let ack : AckPayload := ⟨received.uid, received.seq⟩
      (payloadSize, some buf, [.transmitted ack.toBytes rx.sendOk])

/-- Everything one poll can do, by the phase it finds. -/
inductive PollOutcome (link : LoRaLink) (poll : RadioPoll) :
    LoRaSendStatus × LoRaLink × List RadioEvent → Prop
  | idle : link.phase = .idle → PollOutcome link poll (.idle, link, [])
  | transmitted : link.phase = .transmit → poll.sendOk = true →
      PollOutcome link poll (.pending,
        ({ link with attempt := link.attempt + 1 }).enterPhase .awaitAck poll.enterAt,
        [.transmitted link.pending.toBytes true])
  | sendFailed : link.phase = .transmit → poll.sendOk = false →
      PollOutcome link poll (.pending,
        ({ link with attempt := link.attempt + 1 }).enterPhase .backoff poll.enterAt,
        [.transmitted link.pending.toBytes false])
  | acked : link.phase = .awaitAck → readAck poll = some ⟨link.pending.uid, link.pending.seq⟩ →
      PollOutcome link poll (.acked, { link with phase := .idle },
        [.ackRead ⟨link.pending.uid, link.pending.seq⟩])
  | ackTimeout : link.phase = .awaitAck → readAck poll ≠ some ⟨link.pending.uid, link.pending.seq⟩ →
      link.config.ackTimeoutMs ≤ poll.checkAt - link.phaseStart →
      PollOutcome link poll (.pending, link.enterPhase .backoff poll.enterAt,
        ((readAck poll).map RadioEvent.ackRead).toList)
  | listening : link.phase = .awaitAck → readAck poll ≠ some ⟨link.pending.uid, link.pending.seq⟩ →
      poll.checkAt - link.phaseStart < link.config.ackTimeoutMs →
      PollOutcome link poll (.pending, link, ((readAck poll).map RadioEvent.ackRead).toList)
  | backingOff : link.phase = .backoff → poll.checkAt - link.phaseStart < sendBackoffMs →
      PollOutcome link poll (.pending, link, [])
  | failed : link.phase = .backoff → sendBackoffMs ≤ poll.checkAt - link.phaseStart →
      link.config.maxRetries ≤ link.attempt →
      PollOutcome link poll (.failed, { link with phase := .idle }, [])
  | retrying : link.phase = .backoff → sendBackoffMs ≤ poll.checkAt - link.phaseStart →
      link.attempt < link.config.maxRetries →
      PollOutcome link poll (.pending, link.enterPhase .transmit poll.enterAt, [])

theorem pollSend_outcome (link : LoRaLink) (poll : RadioPoll) :
    PollOutcome link poll (link.pollSend poll) := by
  unfold pollSend
  cases hphase : link.phase with
  | idle => exact .idle hphase
  | transmit =>
    cases hsend : poll.sendOk with
    | true => simpa [hphase] using PollOutcome.transmitted hphase hsend
    | false => simpa [hphase] using PollOutcome.sendFailed hphase hsend
  | awaitAck =>
    simp only
    split
    · rename_i hack
      simpa [hack] using PollOutcome.acked hphase hack
    · rename_i hack
      split
      · exact .ackTimeout hphase hack ‹_›
      · exact .listening hphase hack (UInt32.not_le.mp ‹_›)
  | backoff =>
    simp only
    split
    · exact .backingOff hphase ‹_›
    · rename_i hwait
      split
      · exact .failed hphase (UInt32.not_lt.mp hwait) ‹_›
      · exact .retrying hphase (UInt32.not_lt.mp hwait) (UInt8.not_le.mp ‹_›)

/-- A begun send from an idle link is in flight with exactly the bytes given. -/
theorem beginSend_idle {link : LoRaLink} (h : link.phase = .idle) (p : Payload) (now : UInt32) :
    link.beginSend p.toBytes now =
      (true, ({ link with pending := p, attempt := 0 }).enterPhase .transmit now) := by
  simp [beginSend, h]

/-- `receivePacket` takes a whole `Payload` and ACKs exactly it, or does nothing. -/
theorem receivePacket_cases (bufLen : Nat) (rx : RadioReceive) :
    (∃ buf, receivePacket bufLen rx = ((payloadSize : Int), some buf,
      [RadioEvent.transmitted (AckPayload.mk (Payload.ofBytes buf).uid (Payload.ofBytes buf).seq).toBytes rx.sendOk])) ∨
    ∃ len, receivePacket bufLen rx = (len, none, []) := by
  unfold receivePacket
  split
  · exact .inr ⟨_, rfl⟩
  · split
    · exact .inr ⟨_, rfl⟩
    · split
      · exact .inr ⟨_, rfl⟩
      · split
        · exact .inr ⟨_, rfl⟩
        · cases readFrame rx.packet payloadSize with
          | none => exact .inr ⟨_, rfl⟩
          | some buf => exact .inl ⟨buf, rfl⟩

end LoRaLink
end IotFirmware
