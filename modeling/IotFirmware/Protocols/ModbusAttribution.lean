import IotFirmware.Foundation.Runs
import IotFirmware.Buses.MeterLine
import IotFirmware.Protocols.ModbusFrames

/-! Which register a Modbus reading is the value of, over calls whose answers may
come late: a reply carries no address, so the first byte after the drain decides. -/
namespace IotFirmware.ModbusAttribution
open Checked

inductive Getter where
  | getImport
  | getExport
  | getVoltage
  deriving DecidableEq

def Getter.address (config : ModbusRtuConfig) : Getter → UInt16
  | .getImport => config.importAddress
  | .getExport => config.exportAddress
  | .getVoltage => config.voltageAddress

structure Call where
  getter : Getter
  exchange : Exchange LineEvent

structure State where
  reader : ModbusRtuReader
  line : MeterLine := {}

section Runs
variable (t : Transport)

def result (s : State) (call : Call) : Checked Number :=
  match call.getter with
  | .getImport => (s.reader.getImport t.bus call.exchange s.line).1
  | .getExport => (s.reader.getExport t.bus call.exchange s.line).1
  | .getVoltage => (s.reader.getVoltage t.bus call.exchange s.line).1

def next (s : State) (call : Call) : State :=
  let after := match call.getter with
    | .getImport => (s.reader.getImport t.bus call.exchange s.line).2
    | .getExport => (s.reader.getExport t.bus call.exchange s.line).2
    | .getVoltage => (s.reader.getVoltage t.bus call.exchange s.line).2
  ⟨after.1, after.2⟩

def asked (s : State) (call : Call) : MeterLine :=
  (t.bus.send call.exchange.send s.line
    (ModbusRtuReader.buildRequest s.reader.config (call.getter.address s.reader.config))).2

/-- Some byte arrives before the call times out. -/
def BytesArrive (exchange : Exchange LineEvent) : Prop :=
  ∃ front tick back, exchange.ticks = front ++ tick :: back ∧ 0 < tick.event.arrived ∧
    ∀ earlier ∈ front ++ [tick], earlier.millis - exchange.startTime < modbusTimeout

/-- The first byte to arrive behind the request, if one does in time, opens an
answer to a request for the same register. -/
def OwnReplyFirst (s : State) (call : Call) : Prop :=
  BytesArrive call.exchange → ∀ b ∈ (asked t s call).coming.head?,
    b.place = 0 ∧ b.reply.address = call.getter.address s.reader.config

/-- A returned value is one the meter sent for that register. -/
def Attributed (s : State) (call : Call) : Prop :=
  ∀ value, result t s call = .ok value → ∃ reply ∈ (next t s call).line.answered,
    reply.address = call.getter.address s.reader.config ∧
      decodeRegisters s.reader.config.registerFormat reply.raw = .ok value

end Runs

def responseFrame (config : ModbusRtuConfig) (reply : Reply) : List UInt8 :=
  withCrc [config.slaveAddress, config.functionCode, 4, (reply.raw >>> 24).toUInt8, (reply.raw >>> 16).toUInt8,
    (reply.raw >>> 8).toUInt8, reply.raw.toUInt8]

/-- What is unread or still to come is the end of all the meter has answered. -/
def Owed (config : ModbusRtuConfig) (line : MeterLine) : Prop :=
  line.rx ++ line.coming <:+ line.answered.flatMap fun reply => taggedFrame (responseFrame config reply) reply

theorem responseTo_buildRequest (config : ModbusRtuConfig) (address : UInt16) (raw : UInt32) :
    responseTo (ModbusRtuReader.buildRequest config address) raw = responseFrame config ⟨address, raw⟩ := rfl

private theorem requestedRegister_buildRequest (config : ModbusRtuConfig) (address : UInt16) :
    requestedRegister (ModbusRtuReader.buildRequest config address) = address := by
  have hread := (crc_read_iff (address &&& 0x00FF).toUInt8 ((address &&& 0xFF00) >>> 8).toUInt8 address).mpr ⟨rfl, rfl⟩
  rw [UInt16.or_comm] at hread
  exact hread.symm

theorem taggedFrame_bytes (frame : List UInt8) (reply : Reply) : (taggedFrame frame reply).map (·.byte) = frame := by
  rw [taggedFrame, List.map_map]
  exact List.zipIdx_map_fst 0 frame

theorem taggedFrame_length (frame : List UInt8) (reply : Reply) : (taggedFrame frame reply).length = frame.length := by
  simp [taggedFrame]

/-- A part of an answer that is led by its first byte is the whole answer. -/
theorem taggedFrame_drop {frame : List UInt8} {reply : Reply} {k : ℕ} {b : LineByte} {rest : List LineByte}
    (h : (taggedFrame frame reply).drop k = b :: rest) (hfirst : b.place = 0) : k = 0 ∧ b.reply = reply := by
  have hat : (taggedFrame frame reply)[k]? = some b := (drop_eq_cons_iff.mp h).1
  simp only [taggedFrame, List.getElem?_map, Option.map_eq_some_iff, Prod.exists, List.getElem?_zipIdx] at hat
  obtain ⟨byte, place, ⟨_, -, heq⟩, rfl⟩ := hat
  simp only [Prod.mk.injEq, Nat.zero_add] at heq
  exact ⟨heq.2.trans hfirst, rfl⟩

section Stream
variable {config : ModbusRtuConfig}

/-- What is owed and starts with the first byte of an answer starts with all of it. -/
theorem answer_of_first {replies : List Reply} {b : LineByte} {rest : List LineByte}
    (h : b :: rest <:+ replies.flatMap fun reply => taggedFrame (responseFrame config reply) reply)
    (hfirst : b.place = 0) :
    b.reply ∈ replies ∧ ∃ more, b :: rest = taggedFrame (responseFrame config b.reply) b.reply ++ more := by
  induction replies with
  | nil => simp at h
  | cons reply replies ih =>
    rw [List.flatMap_cons] at h
    obtain ⟨front, hfront⟩ := h
    rcases List.append_eq_append_iff.mp hfront with ⟨part, hpart, hrest⟩ | ⟨part, -, hrest⟩
    · cases part with
      | nil =>
        obtain ⟨hmem, hmore⟩ := ih (hrest ▸ List.suffix_rfl)
        exact ⟨List.mem_cons_of_mem _ hmem, hmore⟩
      | cons c part =>
        obtain ⟨rfl, rfl⟩ := List.cons.inj hrest
        have hdrop : (taggedFrame (responseFrame config reply) reply).drop front.length = b :: part := by
          rw [hpart, List.drop_left]
        obtain ⟨hk, rfl⟩ := taggedFrame_drop hdrop hfirst
        rw [hk, List.drop_zero] at hdrop
        exact ⟨List.mem_cons_self, _, by rw [hdrop]; rfl⟩
    · obtain ⟨hmem, hmore⟩ := ih ⟨part, hrest.symm⟩
      exact ⟨List.mem_cons_of_mem _ hmem, hmore⟩

private theorem arrive_owed (line : MeterLine) (n : ℕ) :
    (line.arrive n).rx ++ (line.arrive n).coming = line.rx ++ line.coming := by
  simp [MeterLine.arrive]

private theorem readByte_owed {event : LineEvent} {line m : MeterLine} {b : Option UInt8}
    (h : line.readByte event = (b, m)) : m.answered = line.answered ∧
      ∃ taken, taken.map (·.byte) = b.toList ∧ line.rx ++ line.coming = taken ++ (m.rx ++ m.coming) := by
  rw [MeterLine.readByte] at h
  have hsame := arrive_owed line event.arrived
  cases hrx : (line.arrive event.arrived).rx with
  | nil =>
    simp only [hrx, Prod.mk.injEq] at h
    obtain ⟨rfl, rfl⟩ := h
    exact ⟨rfl, [], rfl, hsame.symm⟩
  | cons first rx =>
    simp only [hrx, Prod.mk.injEq] at h
    obtain ⟨rfl, rfl⟩ := h
    refine ⟨rfl, [first], rfl, ?_⟩
    rw [← hsame, hrx]
    rfl

theorem readByte_eq (t : Transport) : t.bus.readByte = MeterLine.readByte := by
  cases t <;> rfl

/-- Reading the line takes bytes off the front of what is owed. -/
theorem owed_of_reads {t : Transport} {line line' : MeterLine} {bytes : List UInt8} (h : Reads t.bus line bytes line') :
    line'.answered = line.answered ∧
      ∃ taken, taken.map (·.byte) = bytes ∧ line.rx ++ line.coming = taken ++ (line'.rx ++ line'.coming) := by
  induction h with
  | done => exact ⟨rfl, [], rfl, rfl⟩
  | idle hread _ ih =>
    rw [readByte_eq] at hread
    obtain ⟨hanswered, none_, hnone, hfront⟩ := readByte_owed hread
    obtain ⟨hanswered', taken, htaken, hrest⟩ := ih
    exact ⟨hanswered'.trans hanswered, none_ ++ taken, by simp [hnone, htaken], by simp [hfront, hrest]⟩
  | byte hread _ ih =>
    rw [readByte_eq] at hread
    obtain ⟨hanswered, one, hone, hfront⟩ := readByte_owed hread
    obtain ⟨hanswered', taken, htaken, hrest⟩ := ih
    exact ⟨hanswered'.trans hanswered, one ++ taken, by simp [hone, htaken], by simp [hfront, hrest]⟩

/-- Nothing is heard on a drained line unless a byte arrives in time. -/
theorem bytesArrive_of_heard {t : Transport} {t35 startTime : UInt32} (ticks : List (Tick LineEvent)) :
    ∀ line : MeterLine, line.rx = [] → heard t.bus t35 startTime ticks none line ≠ [] →
      ∃ front tick back, ticks = front ++ tick :: back ∧ 0 < tick.event.arrived ∧
        ∀ earlier ∈ front ++ [tick], earlier.millis - startTime < modbusTimeout := by
  induction ticks with
  | nil => simp [heard]
  | cons tick ticks ih =>
    intro line hrx hheard
    rw [heard, readByte_eq] at hheard
    by_cases htime : tick.millis - startTime < modbusTimeout
    · by_cases hpos : 0 < tick.event.arrived
      · exact ⟨[], tick, ticks, rfl, hpos, by simpa using htime⟩
      · have harrive : line.arrive tick.event.arrived = line := by
          simp [MeterLine.arrive, Nat.eq_zero_of_not_pos hpos]
        have hread : MeterLine.readByte tick.event line = (none, line) := by
          simp [MeterLine.readByte, harrive, hrx]
        rw [if_pos htime, hread] at hheard
        obtain ⟨front, late, back, rfl, hlate, hearlier⟩ := ih line hrx (by simpa using hheard)
        refine ⟨tick :: front, late, back, rfl, hlate, ?_⟩
        simpa using ⟨htime, by simpa using hearlier⟩
    · rw [if_neg htime] at hheard
      exact absurd rfl hheard

end Stream

section Calls
variable {t : Transport} {s : State} {call : Call}

private theorem result_eq : result t s call = (s.reader.readRegister t.bus (call.getter.address s.reader.config)
    call.exchange s.line).1 := by
  rw [result]
  cases call.getter <;> rfl

private theorem next_eq : next t s call = ⟨(s.reader.readRegister t.bus (call.getter.address s.reader.config)
    call.exchange s.line).2.1, (s.reader.readRegister t.bus (call.getter.address s.reader.config)
    call.exchange s.line).2.2⟩ := by
  rw [next]
  cases call.getter <;> rfl

private theorem owed_ask {line : MeterLine} {config : ModbusRtuConfig} (address : UInt16) (raw : UInt32)
    (h : Owed config line) : Owed config (line.ask (ModbusRtuReader.buildRequest config address) raw) := by
  obtain ⟨front, hfront⟩ := h
  refine ⟨front, ?_⟩
  simp only [MeterLine.ask, requestedRegister_buildRequest, responseTo_buildRequest, List.flatMap_append,
    List.flatMap_cons, List.flatMap_nil, List.append_nil]
  rw [← hfront]
  simp

/-- Sending a request keeps the line owing the end of what was answered, with
nothing received yet. -/
theorem owed_send {event : LineEvent} {line : MeterLine} {config : ModbusRtuConfig} (address : UInt16)
    (h : Owed config line) :
    Owed config (t.bus.send event line (ModbusRtuReader.buildRequest config address)).2 ∧
      (t.bus.send event line (ModbusRtuReader.buildRequest config address)).2.rx = [] := by
  have hdrained : Owed config (line.arrive event.arrived).drainRX := by
    refine List.IsSuffix.trans ?_ h
    rw [← arrive_owed line event.arrived]
    exact List.suffix_append _ _
  have hstopped : Owed config (line.arrive event.arrived).drainRX.stop := List.nil_suffix
  have hwrite {line : MeterLine} (hline : Owed config line) (hrx : line.rx = []) :
      Owed config (writeRequest event line (ModbusRtuReader.buildRequest config address)).2 ∧
        (writeRequest event line (ModbusRtuReader.buildRequest config address)).2.rx = [] := by
    rw [writeRequest]
    split
    · exact ⟨owed_ask address event.raw hline, hrx⟩
    · exact ⟨hline, hrx⟩
  cases t with
  | sp3485 => exact hwrite hdrained rfl
  | tcpBus =>
    simp only [Transport.bus, tcpBus]
    split
    · exact hwrite hdrained rfl
    · exact hwrite hstopped rfl
    · exact ⟨hstopped, rfl⟩

theorem owed_next (h : Owed s.reader.config s.line) : Owed (next t s call).reader.config (next t s call).line := by
  obtain ⟨hconfig, bytes, hreads, -⟩ := s.reader.readRegister_reads t.bus (call.getter.address s.reader.config)
    call.exchange s.line
  rw [next_eq]
  dsimp only
  rw [hconfig]
  obtain ⟨howed, -⟩ := owed_send (call.getter.address s.reader.config) h
  obtain ⟨hanswered, taken, -, hrest⟩ := owed_of_reads hreads
  rw [Owed, hanswered]
  refine List.IsSuffix.trans ?_ howed
  rw [hrest]
  exact List.suffix_append _ _

/-- A call whose first byte opens an own answer returns an own value, if any. -/
theorem attributed_of_first (h : Owed s.reader.config s.line) (hfirst : OwnReplyFirst t s call) :
    Attributed t s call := by
  intro value hvalue
  rw [result_eq, ModbusRtuReader.readRegister_eq_ok] at hvalue
  obtain ⟨line, hsend, -, d3, d2, d1, d0, hhears, hdecode⟩ := hvalue
  obtain ⟨-, bytes, hreads, hbytes⟩ := s.reader.readRegister_reads t.bus (call.getter.address s.reader.config)
    call.exchange s.line
  obtain ⟨howed, hrx⟩ := owed_send (call.getter.address s.reader.config) h
  have hasked : asked t s call = line := by rw [asked, hsend]
  rw [OwnReplyFirst, hasked] at hfirst
  rw [hsend] at hreads hbytes howed hrx
  obtain rfl := hbytes rfl
  dsimp only at *
  have harrive : BytesArrive call.exchange := by
    apply bytesArrive_of_heard call.exchange.ticks line hrx
    rw [ModbusRtuReader.hears] at hhears
    rw [hhears]
    simp [withCrc]
  obtain ⟨hanswered, taken, htaken, hrest⟩ := owed_of_reads hreads
  rw [next_eq, hanswered]
  rw [hrx, List.nil_append] at hrest
  rw [Owed, hrx, List.nil_append] at howed
  have htaken9 : taken.length = responseLen := by
    rw [← List.length_map (·.byte), htaken, hhears]
    simp [withCrc, responseLen]
  obtain ⟨b, rest, hb⟩ : ∃ b rest, line.coming = b :: rest := by
    apply List.exists_cons_of_ne_nil
    intro hnil
    simp [hnil] at hrest
    simp [hrest, responseLen] at htaken9
  obtain ⟨hplace, haddress⟩ := hfirst harrive b (by simp [hb])
  rw [hb] at howed hrest
  obtain ⟨hmem, more, hmore⟩ := answer_of_first howed hplace
  -- the nine bytes taken are the nine of the answer
  have hwhole : taken = taggedFrame (responseFrame s.reader.config b.reply) b.reply := by
    refine (List.append_inj (hrest.symm.trans hmore) ?_).1
    rw [htaken9, taggedFrame_length]
    simp [responseFrame, withCrc, responseLen]
  have hframe : responseFrame s.reader.config b.reply =
      withCrc [s.reader.config.slaveAddress, s.reader.config.functionCode, 4, d3, d2, d1, d0] := by
    rw [← hhears, ← htaken, hwhole, taggedFrame_bytes]
  obtain ⟨hbody, -⟩ := List.append_inj hframe rfl
  simp only [List.cons.injEq, and_true, true_and] at hbody
  obtain ⟨rfl, rfl, rfl, rfl⟩ := hbody
  refine ⟨b.reply, hmem, haddress, ?_⟩
  rw [← hdecode, word_of_bytes]

end Calls

/-- Over any run of getters from an idle line, as long as the first byte to come
behind each request opens an answer for the same register, every value returned
is one the meter sent for the register it is returned for. -/
theorem modbus_attribution (t : Transport) (reader : ModbusRtuReader) (moves : List (Move State Call)) (s : State)
    (h : Run (fun s call s' => s' = next t s call) ⟨reader, {}⟩ moves s)
    (hfirst : ∀ m ∈ moves, OwnReplyFirst t m.before m.label) : ∀ m ∈ moves, Attributed t m.before m.label := by
  have howed {moves : List (Move State Call)} {s : State}
      (h : Run (fun s call s' => s' = next t s call) ⟨reader, {}⟩ moves s) : Owed s.reader.config s.line := by
    apply h.invariant (fun _ s => Owed s.reader.config s.line)
    · exact List.nil_suffix
    · rintro _ m call _ - hm rfl
      exact owed_next hm
  intro m hm
  obtain ⟨front, back, rfl⟩ := List.append_of_mem hm
  exact attributed_of_first (howed h.move.1) (hfirst m hm)

/-- An import whose answer does not come within the timeout. -/
def lateImport : Call where
  getter := .getImport
  exchange := {
    send := { arrived := 0, raw := 0x44A00000 }
    startTime := 0
    startMicros := 0
    ticks := [⟨0, { arrived := 0 }, 0⟩, ⟨500, { arrived := 0 }, 500000⟩] }

/-- A call behind whose request nine bytes come, and then silence. -/
def answered (getter : Getter) (raw : UInt32) : Call where
  getter := getter
  exchange := {
    send := { arrived := 0, raw := raw }
    startTime := 500
    startMicros := 500000
    ticks := ⟨501, { arrived := 9 }, 510000⟩ :: (List.replicate 8 ⟨510, { arrived := 0 }, 510000⟩ ++
      [⟨520, { arrived := 0 }, 520000⟩]) }

/-- The late answer to an import is returned for the export polled next. -/
theorem late_import_exported :
    ¬ ∀ (t : Transport) (reader : ModbusRtuReader) (moves : List (Move State Call)) (s : State),
      Run (fun s call s' => s' = next t s call) ⟨reader, {}⟩ moves s → ∀ m ∈ moves, Attributed t m.before m.label := by
  intro hclaim
  let start : State := ⟨ModbusRtuReader.floatReader, {}⟩
  let late := next .sp3485 start lateImport
  have hrun := run_movesOf (next .sp3485) start [lateImport, answered .getExport 0]
  have hattributed := hclaim .sp3485 _ _ _ hrun ⟨late, answered .getExport 0, next .sp3485 late (answered .getExport 0)⟩
    (by simp [movesOf, late])
  have hresult : result .sp3485 late (answered .getExport 0) = .ok (float32Value 0x44A00000) := by decide +kernel
  obtain ⟨reply, hreply, haddress, hdecode⟩ := hattributed _ hresult
  have hlog : (next .sp3485 late (answered .getExport 0)).line.answered = [⟨2, 0x44A00000⟩, ⟨4, 0⟩] := by decide +kernel
  dsimp only at hreply haddress hdecode
  rw [hlog] at hreply
  have hdiffer : Except.ok (float32Value 0) ≠ (.ok (float32Value 0x44A00000) : Checked Number) := by decide +kernel
  simp only [List.mem_cons, List.not_mem_nil, or_false] at hreply
  obtain rfl | rfl := hreply
  · exact absurd haddress (by decide)
  · exact hdiffer hdecode

/-- A call as `answered`, before whose request the nine bytes of a late answer come. -/
def answeredBehindLate (getter : Getter) (raw : UInt32) : Call :=
  { getter, exchange := { (answered getter raw).exchange with send := { arrived := 9, raw } } }

private theorem not_bytesArrive {exchange : Exchange LineEvent} (h : ∀ tick ∈ exchange.ticks, tick.event.arrived = 0) :
    ¬BytesArrive exchange := by
  rintro ⟨front, tick, back, hticks, harrived, -⟩
  rw [h tick (by simp [hticks])] at harrived
  exact Nat.lt_irrefl 0 harrived

private theorem ownReplyFirst_of_head {t : Transport} {s : State} {call : Call} (h : (asked t s call).coming.head?.map
    (fun b => (b.place, b.reply.address)) = some (0, call.getter.address s.reader.config)) :
    OwnReplyFirst t s call := by
  rintro - b hb
  rw [Option.mem_def.mp hb, Option.map_some, Option.some.injEq] at h
  exact Prod.mk.inj h

/-- Behind an import whose answer is late. -/
def behindLate : State := next .sp3485 ⟨ModbusRtuReader.floatReader, {}⟩ lateImport

/-- Then behind an export before whose request that answer came. -/
def behindExport : State := next .sp3485 behindLate (answeredBehindLate .getExport 0x43660000)

/-- The late answer is drained, so that export and the import behind it return their own values. -/
theorem modbus_attribution_lateDropped :
    Attributed .sp3485 behindLate (answeredBehindLate .getExport 0x43660000) ∧
      Attributed .sp3485 behindExport (answered .getImport 0x449A5000) ∧
      result .sp3485 behindLate (answeredBehindLate .getExport 0x43660000) = .ok (float32Value 0x43660000) ∧
      result .sp3485 behindExport (answered .getImport 0x449A5000) = .ok (float32Value 0x449A5000) := by
  have hlate : OwnReplyFirst .sp3485 ⟨ModbusRtuReader.floatReader, {}⟩ lateImport := fun harrives =>
    absurd harrives (not_bytesArrive (by decide))
  have hexport : OwnReplyFirst .sp3485 behindLate (answeredBehindLate .getExport 0x43660000) :=
    ownReplyFirst_of_head (by decide +kernel)
  have himport : OwnReplyFirst .sp3485 behindExport (answered .getImport 0x449A5000) :=
    ownReplyFirst_of_head (by decide +kernel)
  have hrun := run_movesOf (next .sp3485) ⟨ModbusRtuReader.floatReader, {}⟩
    [lateImport, answeredBehindLate .getExport 0x43660000, answered .getImport 0x449A5000]
  have hall := modbus_attribution .sp3485 ModbusRtuReader.floatReader _ _ hrun (by
    rw [movesOf, List.forall_mem_cons, movesOf, List.forall_mem_cons, movesOf, List.forall_mem_cons, ← behindLate,
      ← behindExport]
    exact ⟨hlate, hexport, himport, fun _ hm => absurd hm List.not_mem_nil⟩)
  rw [movesOf, List.forall_mem_cons, movesOf, List.forall_mem_cons, movesOf, List.forall_mem_cons, ← behindLate,
    ← behindExport] at hall
  exact ⟨hall.2.1, hall.2.2.1, by decide +kernel, by decide +kernel⟩

end IotFirmware.ModbusAttribution
