import Reticulum.Lib.IntType
import Reticulum.Rlr.Sessions

/-!
# What an integer field keeps

`set_config` casts an integer to the type of its field, and `get_config` widens what is stored to
32 bits. Between the two requests any others may come that do not set the field.
-/

namespace Reticulum
open Msgpack

/-- The type of the field in `Config`. -/
def IntField.type : IntField → IntType
  | .freqHz => .unsigned 32
  | .bwHz => .unsigned 32
  | .sf => .unsigned 8
  | .cr => .unsigned 8
  | .txpDbm => .signed 7
  | .latUdeg => .signed 31
  | .lonUdeg => .signed 31
  | .altM => .signed 31

/-- The low 32 bits of `v` are those of a value of the field's type. -/
def IntField.Fits (f : IntField) (v : Int) : Prop := f.type.Fits 32 v

instance (f : IntField) (v : Int) : Decidable (f.Fits v) :=
  inferInstanceAs (Decidable (f.type.Fits 32 v))

namespace IntField
variable {f : IntField} {v w : Int}

theorem inRange_iff : f.InRange v ↔ f.type.Mem v := by
  cases f <;> exact .rfl

theorem bits_le (f : IntField) : f.type.bits ≤ 32 := by
  cases f <;> decide

theorem InRange.fits (h : f.InRange v) : f.Fits v := (inRange_iff.mp h).fits f.bits_le

/-- A transmit power of -9, as its `uint32` bit pattern. -/
example : IntField.txpDbm.Fits 4294967287 := by decide

end IntField

/-! ### Requests that leave a field alone -/

namespace ConfigProtocol

section
variable {σ : Type} (fw : FwVersion) (transport : Option Transport) (save : SaveFn σ)

variable {fw transport save}

end

end ConfigProtocol
end Reticulum
