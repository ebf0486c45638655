import IotFirmware.Foundation.Bytes

/-! The config namespace of the flash store, with the typed reads that the
loaders make and the typed writes behind the serial commands. -/
namespace IotFirmware

inductive NvsValue where
  | uint (value : UInt32)
  | str (text : List UInt8)
  deriving DecidableEq, Repr

abbrev Nvs := List UInt8 → Option NvsValue

namespace Nvs

def blank : Nvs := fun _ => none

def put (nvs : Nvs) (key : List UInt8) (value : NvsValue) : Nvs := Function.update nvs key (some value)

/-- The stored number, or the fallback for a key of any other kind. -/
def getUInt (nvs : Nvs) (key : List UInt8) (fallback : UInt32) : UInt32 :=
  match nvs key with
  | some (.uint value) => value
  | _ => fallback

def getString (nvs : Nvs) (key fallback : List UInt8) : List UInt8 :=
  match nvs key with
  | some (.str text) => text
  | _ => fallback

def readU32 (nvs : Nvs) (key : List UInt8) (fallback : UInt32) : UInt32 :=
  if (nvs key).isSome then nvs.getUInt key fallback else fallback

/-- Reads a string into `outLen` bytes, cut off when it does not fit. -/
def readStr (nvs : Nvs) (key fallback : List UInt8) (outLen : Nat) : List UInt8 :=
  if (nvs key).isSome then (nvs.getString key fallback).take (outLen - 1) else fallback.take (outLen - 1)

theorem readU32_of_stored {nvs : Nvs} {key : List UInt8} {value : UInt32} (h : nvs key = some (.uint value))
    (fallback : UInt32) : nvs.readU32 key fallback = value := by
  simp [readU32, getUInt, h]

@[simp] theorem put_self (nvs : Nvs) (key : List UInt8) (value : NvsValue) : nvs.put key value key = some value :=
  Function.update_self ..

end Nvs
end IotFirmware
