import Mathlib.Tactic

/-! The interface of a meter protocol: checking that a meter answers, and three
getters that write a float through a pointer and return a status. -/
namespace IotFirmware

/-- What one getter call makes of the reader and of the float its caller passes,
kept as its bit pattern: `true` is EXIT_SUCCESS. `ι` is what happens on the bus
around the call. -/
abbrev Getter (ρ ι : Type) := ι → ρ → UInt32 → Bool × UInt32 × ρ

/-- A failed getter leaves its output as it was. -/
def Getter.Untouched {ρ ι : Type} (get : Getter ρ ι) : Prop :=
  ∀ io r val, (get io r val).1 = false → (get io r val).2.1 = val

/-- A meter protocol, whose getters keep to the contract on their output. -/
structure Reader (ρ ι : Type) where
  probe : ι → ρ → Bool × ρ
  getImport : Getter ρ ι
  getExport : Getter ρ ι
  getVoltage : Getter ρ ι
  import_untouched : getImport.Untouched
  export_untouched : getExport.Untouched
  voltage_untouched : getVoltage.Untouched

end IotFirmware
