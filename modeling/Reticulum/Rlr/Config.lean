import Reticulum.Lib.Endian
import Reticulum.Rns.Bytes

/-!
# The configuration record (`Config`)

The struct is packed and the target little-endian, so its bytes are those of its fields in order;
the store writes and checksums exactly these.
-/

namespace Reticulum
open Endian

/-- How a call ends that does not return: it throws, or it touches memory that is not its own. -/
inductive Fault where
  | threw (e : Exn)
  | outOfBounds
deriving DecidableEq

/-- `char display_name[32]`. -/
abbrev DisplayName := {name : Bytes // name.length = 32}

def DisplayName.unset : DisplayName := ⟨List.replicate 32 0, List.length_replicate⟩

structure Config where
  version : UInt16 := 2
  logLevel : UInt8 := 1
  reserved : UInt8 := 0
  freqHz : UInt32 := 904375000
  bwHz : UInt32 := 250000
  sf : UInt8 := 10
  cr : UInt8 := 5
  txpDbm : Int8 := 22
  flags : UInt8 := 0
  /-- the bits of the float; these are the bits of `1.0f` -/
  battMult : UInt32 := 0x3f800000
  teleIntervalMs : UInt32 := 0
  lxmfIntervalMs : UInt32 := 0
  btPin : UInt32 := 0
  latitudeUdeg : Int32 := 0
  longitudeUdeg : Int32 := 0
  altitudeM : Int32 := 0
  displayName : DisplayName := .unset
  crc32 : UInt32 := 0
deriving DecidableEq

namespace Config

/-- `sizeof(Config)`. -/
def size : Nat := 80

/-- The bytes before the `crc32` field. -/
def head (c : Config) : Bytes :=
  [toLe 2 c.version.toNat, [c.logLevel, c.reserved], toLe 4 c.freqHz.toNat, toLe 4 c.bwHz.toNat,
    [c.sf, c.cr, c.txpDbm.toUInt8, c.flags], toLe 4 c.battMult.toNat,
    toLe 4 c.teleIntervalMs.toNat, toLe 4 c.lxmfIntervalMs.toNat, toLe 4 c.btPin.toNat,
    toLe 4 c.latitudeUdeg.toUInt32.toNat, toLe 4 c.longitudeUdeg.toUInt32.toNat,
    toLe 4 c.altitudeM.toUInt32.toNat, c.displayName.1].flatten

def bytes (c : Config) : Bytes := c.head ++ toLe 4 c.crc32.toNat

def u32At (b : Bytes) (offset : Nat) : UInt32 := UInt32.ofNat (ofLe (b.slice offset 4))

/-- The struct over a buffer that holds its bytes. -/
def ofBytes (b : Bytes) (h : b.length = size) : Config where
  version := UInt16.ofNat (ofLe (b.slice 0 2))
  logLevel := b.byteAt 2
  reserved := b.byteAt 3
  freqHz := u32At b 4
  bwHz := u32At b 8
  sf := b.byteAt 12
  cr := b.byteAt 13
  txpDbm := (b.byteAt 14).toInt8
  flags := b.byteAt 15
  battMult := u32At b 16
  teleIntervalMs := u32At b 20
  lxmfIntervalMs := u32At b 24
  btPin := u32At b 28
  latitudeUdeg := (u32At b 32).toInt32
  longitudeUdeg := (u32At b 36).toInt32
  altitudeM := (u32At b 40).toInt32
  displayName := ⟨b.slice 44 32, by rw [Bytes.length_slice, h]; rfl⟩
  crc32 := u32At b 76

@[simp] theorem length_head (c : Config) : c.head.length = 76 := by
  simp [head, c.displayName.2]

@[simp] theorem length_bytes (c : Config) : c.bytes.length = size := by
  simp [bytes, size]

theorem u32_toLe (v : UInt32) : UInt32.ofNat (ofLe (toLe 4 v.toNat)) = v := by
  have hlt : v.toNat < 256 ^ 4 := v.toNat_lt
  rw [ofLe_toLe 4 _ hlt, UInt32.ofNat_toNat]

theorem toLe_u32 {bs : Bytes} (h : bs.length = 4) :
    toLe 4 (UInt32.ofNat (ofLe bs)).toNat = bs := by
  have hlt := ofLe_lt bs
  rw [h] at hlt
  have hmod : ofLe bs % 2 ^ 32 = ofLe bs := Nat.mod_eq_of_lt hlt
  rw [UInt32.toNat_ofNat', hmod, ← h, toLe_ofLe]

theorem ofBytes_bytes (c : Config) : ofBytes c.bytes c.length_bytes = c := by
  have hversion : UInt16.ofNat (ofLe (toLe 2 c.version.toNat)) = c.version := by
    have hlt : c.version.toNat < 256 ^ 2 := c.version.toNat_lt
    rw [ofLe_toLe 2 _ hlt, UInt16.ofNat_toNat]
  have hname : c.bytes.slice 44 32 = c.displayName.1 := by
    have hdrop : c.bytes.drop 44 = (c.displayName.1 ++ []) ++ toLe 4 c.crc32.toNat := rfl
    rw [Bytes.slice, hdrop, List.append_nil]
    exact List.take_left' c.displayName.2
  have hcrc : c.bytes.slice 76 4 = toLe 4 c.crc32.toNat := by
    have hdrop : c.bytes.drop 76 = toLe 4 c.crc32.toNat := List.drop_left' c.length_head
    rw [Bytes.slice, hdrop]
    rfl
  cases c with
  | mk version logLevel reserved freqHz bwHz sf cr txpDbm flags battMult tele lxmf btPin lat lon alt
      name crc =>
    simp only [ofBytes, mk.injEq, u32At, hcrc, hname, u32_toLe, and_true]
    refine ⟨hversion, rfl, rfl, u32_toLe _, u32_toLe _, rfl, rfl, ?_, rfl, u32_toLe _, u32_toLe _,
      u32_toLe _, u32_toLe _, ?_, ?_, ?_⟩
    · show txpDbm.toUInt8.toInt8 = txpDbm
      simp
    · show (UInt32.ofNat (ofLe (toLe 4 lat.toUInt32.toNat))).toInt32 = lat
      rw [u32_toLe]
      simp
    · show (UInt32.ofNat (ofLe (toLe 4 lon.toUInt32.toNat))).toInt32 = lon
      rw [u32_toLe]
      simp
    · show (UInt32.ofNat (ofLe (toLe 4 alt.toUInt32.toNat))).toInt32 = alt
      rw [u32_toLe]
      simp

theorem slice_append_slice (b : Bytes) {i j m : Nat} (n : Nat) (h : i + m = j) :
    b.slice i m ++ b.slice j n = b.slice i (m + n) := by
  rw [← h, Bytes.slice, Bytes.slice, Bytes.slice, ← List.drop_drop, ← List.take_add]

theorem bytes_ofBytes {b : Bytes} (h : b.length = size) : (ofBytes b h).bytes = b := by
  have hlen : ∀ {i n}, i + n ≤ 80 → (b.slice i n).length = n := by
    intro i n hi
    exact Bytes.length_slice_of_le (by rw [h]; exact hi)
  have hbyte : ∀ {i}, i + 1 ≤ 80 → [b.byteAt i] = b.slice i 1 := by
    intro i hi
    have hlt : i < b.length := by
      rw [h]
      exact hi
    rw [Bytes.slice, List.take_one_drop_eq_of_lt_length hlt]
    simp [Bytes.byteAt, List.getElem?_eq_getElem hlt]
  have hversion : toLe 2 (UInt16.ofNat (ofLe (b.slice 0 2))).toNat = b.slice 0 2 := by
    have hlt := ofLe_lt (b.slice 0 2)
    rw [hlen (by decide)] at hlt
    have hmod : ofLe (b.slice 0 2) % 2 ^ 16 = ofLe (b.slice 0 2) := Nat.mod_eq_of_lt hlt
    have hback := toLe_ofLe (b.slice 0 2)
    rw [hlen (by decide)] at hback
    rw [UInt16.toNat_ofNat', hmod, hback]
  have hword : ∀ {i}, i + 4 ≤ 80 → toLe 4 (u32At b i).toNat = b.slice i 4 := by
    intro i hi
    exact toLe_u32 (hlen hi)
  have h2 : [b.byteAt 2, b.byteAt 3] = b.slice 2 2 := by
    rw [← slice_append_slice b (i := 2) (m := 1) 1 rfl, ← hbyte (by decide), ← hbyte (by decide)]
    rfl
  have h12 : [b.byteAt 12, b.byteAt 13, b.byteAt 14, b.byteAt 15] = b.slice 12 4 := by
    rw [← slice_append_slice b (i := 12) (m := 1) 3 rfl,
      ← slice_append_slice b (i := 13) (m := 1) 2 rfl,
      ← slice_append_slice b (i := 14) (m := 1) 1 rfl, ← hbyte (by decide), ← hbyte (by decide),
      ← hbyte (by decide), ← hbyte (by decide)]
    rfl
  have hall : b.slice 0 80 = b := by
    rw [Bytes.slice, List.drop_zero]
    exact List.take_of_length_le (le_of_eq h)
  simp only [bytes, head, ofBytes, UInt8.toUInt8_toInt8, UInt32.toUInt32_toInt32,
    hversion, h2, h12, List.flatten_cons, List.flatten_nil]
  rw [hword (by decide), hword (by decide), hword (by decide), hword (by decide),
    hword (by decide), hword (by decide), hword (by decide), hword (by decide), hword (by decide),
    hword (by decide)]
  simp (disch := decide) only [List.append_nil, slice_append_slice, Nat.reduceAdd]
  exact hall

theorem bytes_injective : Function.Injective bytes := by
  intro c d h
  have hof : ofBytes c.bytes c.length_bytes = ofBytes d.bytes d.length_bytes := by
    congr 1
  rw [ofBytes_bytes, ofBytes_bytes] at hof
  exact hof

end Config
end Reticulum
