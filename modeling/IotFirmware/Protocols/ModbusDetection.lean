import IotFirmware.Protocols.ModbusFrames

/-! What the Modbus CRC catches: no short burst and no odd number of flipped bits
turns an accepted frame into another. -/
namespace IotFirmware
open Checked

/-- The generator of the Modbus CRC, reflected. -/
def modbusPoly : BitVec 16 := 0xA001

private theorem toBitVec_modbusCrcByte (crc : UInt16) (b : UInt8) :
    (modbusCrcByte crc b).toBitVec = Crc.byte modbusPoly crc.toBitVec b :=
  Crc.toBitVec_byte (Crc.toBitVec_step 0xA001) crc b

theorem toBitVec_modbusCrc (data : List UInt8) : (modbusCrc data).toBitVec = Crc.run modbusPoly 0xFFFF#16 data :=
  Crc.toBitVec_foldl toBitVec_modbusCrcByte data 0xFFFF

private theorem withCrc_guarded (data : List UInt8) : withCrc data = Crc.guarded modbusPoly 0xFFFF#16 0 data := by
  rw [Crc.guarded, ← toBitVec_modbusCrc, withCrc, high_byte]
  simp [Crc.lowFirst]

namespace ModbusRtuReader

/-- Where a frame was accepted, the same frame changed within two adjacent bytes,
or by an odd number of flipped bits, is refused in whatever call and by whatever
timing it comes, and so are the register read or the probe it was an answer to. -/
theorem readFrame_detects {σ ε σ' ε' : Type} {bus : Module σ ε} {bus' : Module σ' ε'} {r r' : ModbusRtuReader}
    {max : ℕ} {exchange : Exchange ε} {s : σ} {frame changed : List UInt8}
    (h : (r.readFrame bus max exchange s).1 = .ok frame) (hlen : changed.length = frame.length) (hne : changed ≠ frame)
    (hflips : Crc.DifferInPair frame changed ∨ Odd (Crc.flips frame changed)) (exchange' : Exchange ε') (s' : σ')
    (hears : r'.hears bus' exchange' s' = changed) :
    (∀ max', (r'.readFrame bus' max' exchange' s').1 = failure) ∧
      (∀ before address, bus'.send exchange'.send before (buildRequest r'.config address) = (true, s') →
        (r'.readRegister bus' address exchange' before).1 = failure) ∧
      ∀ before, bus'.send exchange'.send before (probeRequest r'.config) = (true, s') →
        (r'.probe bus' exchange' before).1 = failure := by
  have hrefused (max' : ℕ) : (r'.readFrame bus' max' exchange' s').1 = failure := by
    apply (r'.inBounds_readFrame bus' max' exchange' s').eq_failure
    intro accepted haccepted
    obtain ⟨-, -, -, -, body, rfl⟩ := (r.readFrame_eq_ok bus).mp h
    obtain ⟨rfl, -, -, -, body', hbody'⟩ := (r'.readFrame_eq_ok bus').mp haccepted
    rw [hears] at hbody'
    subst hbody'
    apply hne
    rw [withCrc_length, withCrc_length] at hlen
    rw [withCrc_guarded, withCrc_guarded] at hflips ⊢
    exact (Crc.guarded_eq_of_flips rfl rfl (by omega) hflips).symm
  refine ⟨hrefused, ?_, ?_⟩
  · intro before address hsend
    exact r'.readRegister_of_readFrame bus' hsend (hrefused responseLen)
  · intro before hsend
    exact r'.probe_of_readFrame bus' hsend (hrefused probeFrameLen)

/-- A bus on which every pass of the read loop brings what its event says. -/
def scripted : Module Unit (Option UInt8) where
  send _ _ _ := (true, ())
  readByte event _ := (event, ())

def atOnce (bytes : List UInt8) : Exchange (Option UInt8) where
  send := none
  startTime := 0
  startMicros := 0
  ticks := bytes.map fun b => ⟨0, some b, 0⟩

theorem readFrame_detects_flip :
    (∀ max', (floatReader.readFrame scripted max' (atOnce [1, 3, 4, 0x43, 0x66, 0, 1, 0x0F, 0xA8]) ()).1 = failure) ∧
      (∀ before address, scripted.send none before (buildRequest floatReader.config address) = (true, ()) →
        (floatReader.readRegister scripted address (atOnce [1, 3, 4, 0x43, 0x66, 0, 1, 0x0F, 0xA8]) before).1 =
          failure) ∧
      ∀ before, scripted.send none before (probeRequest floatReader.config) = (true, ()) →
        (floatReader.probe scripted (atOnce [1, 3, 4, 0x43, 0x66, 0, 1, 0x0F, 0xA8]) before).1 = failure :=
  @readFrame_detects Unit (Option UInt8) Unit (Option UInt8) scripted scripted floatReader floatReader 9
    (atOnce [1, 3, 4, 0x43, 0x66, 0, 0, 0x0F, 0xA8]) () [1, 3, 4, 0x43, 0x66, 0, 0, 0x0F, 0xA8]
    [1, 3, 4, 0x43, 0x66, 0, 1, 0x0F, 0xA8] (by decide +kernel) rfl (by decide) (.inr (by decide +kernel)) _ ()
    (by decide +kernel)

end ModbusRtuReader
end IotFirmware
