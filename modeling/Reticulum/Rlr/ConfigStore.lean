import Reticulum.Rlr.Config
import Reticulum.Rlr.Storage

/-!
# The stored configuration (`ConfigStore`)

One file holds the bytes of a `Config` whose `crc32` is that of the bytes before it.
-/

namespace Reticulum

/-- How the file calls of one `load` go. -/
structure LoadCalls where
  existsOk : Bool := true
  read : ReadCalls := {}
deriving DecidableEq

/-- How the file calls of one `save` go. -/
structure SaveCalls where
  existsOk : Bool := true
  read : ReadCalls := {}
  write : WriteCalls := {}
deriving DecidableEq

namespace ConfigStore
open Storage

def path : String := "/config.bin"

def crcBit (c : UInt32) : UInt32 := (c >>> 1) ^^^ (0xEDB88320 &&& (0 - (c &&& 1)))

def crcByte (c : UInt32) (b : UInt8) : UInt32 :=
  (List.range 8).foldl (fun c _ => crcBit c) (c ^^^ b.toUInt32)

def crc32 (data : Bytes) : UInt32 := data.foldl crcByte 0xFFFFFFFF ^^^ 0xFFFFFFFF

-- the check value of this CRC, of the digits 1 to 9
example : crc32 [0x31, 0x32, 0x33, 0x34, 0x35, 0x36, 0x37, 0x38, 0x39] = 0xCBF43926 := by
  decide +kernel

/-- `crc_of_config`. -/
def crcOf (cfg : Config) : UInt32 := crc32 cfg.head

/-- The checks of `load` on what it has read. -/
def accept (b : Bytes) : Option Config :=
  if h : b.length = Config.size then
    let tmp := Config.ofBytes b h
    if tmp.version ≠ ({} : Config).version then none
    else if tmp.crc32 ≠ crcOf tmp then none
    else some tmp
  else none

def load (fs : Fs) (calls : LoadCalls) : Option Config :=
  if !pathExists fs path calls.existsOk then none
  else (loadFile fs path Config.size calls.read).bind accept

/-- The record `save` writes. -/
def stamped (cfg : Config) : Config := { cfg with crc32 := crcOf cfg }

def save (fs : Fs) (calls : SaveCalls) (cfg : Config) : Bool × Fs :=
  let toWrite := stamped cfg
  if pathExists fs path calls.existsOk &&
      decide (loadFile fs path Config.size calls.read = some toWrite.bytes) then (true, fs)
  else saveFile fs path toWrite.bytes calls.write

theorem crcOf_stamped (cfg : Config) : crcOf (stamped cfg) = crcOf cfg := rfl

/-- What is accepted is a record of this version with its checksum. -/
theorem accept_eq_some {b : Bytes} {cfg : Config} : accept b = some cfg ↔
    b = cfg.bytes ∧ cfg.version = ({} : Config).version ∧ cfg.crc32 = crcOf cfg := by
  constructor
  · intro h
    unfold accept at h
    split at h
    case isTrue hlen =>
      dsimp only at h
      split_ifs at h with hversion hcrc
      rw [← Option.some.inj h, Config.bytes_ofBytes hlen]
      exact ⟨rfl, not_not.mp hversion, not_not.mp hcrc⟩
    case isFalse => cases h
  · rintro ⟨rfl, hversion, hcrc⟩
    rw [accept, dif_pos (Config.length_bytes _)]
    dsimp only
    rw [Config.ofBytes_bytes, if_neg (not_not.mpr hversion), if_neg (not_not.mpr hcrc)]

theorem accept_stamped {cfg : Config} (h : cfg.version = ({} : Config).version) :
    accept (stamped cfg).bytes = some (stamped cfg) :=
  accept_eq_some.mpr ⟨rfl, h, (crcOf_stamped cfg).symm⟩

theorem accept_of_length_ne {b : Bytes} (h : b.length ≠ Config.size) : accept b = none :=
  dif_neg h

/-- What a load finds when all its calls work. -/
theorem load_working (fs : Fs) : load fs {} =
    if fs.mounted then (fs.files path).bind fun b => accept (b.take Config.size) else none := by
  obtain ⟨mounted, files⟩ := fs
  cases mounted with
  | false => rfl
  | true =>
    cases hf : files path with
    | none => simp [load, pathExists, internalExists, hf]
    | some b => simp [load, pathExists, internalExists, loadFile, upTo, hf]

end ConfigStore
end Reticulum
