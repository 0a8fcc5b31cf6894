import Reticulum.Lib.MsgpackFormat
import Reticulum.Rns.Bytes

/-!
# The msgpack writer and reader (`rns/Msgpack`)

The reader's `_ok` flag never comes back once it is false and every later read fails on it, so a
failed read is `none` and a `Reader` in hand is one whose flag is set. Of the buffer and the offset
it keeps the bytes still to be read.
-/

namespace Reticulum

/-- The bytes of a C++ string literal. -/
def ascii (s : String) : Bytes := s.toList.map fun c => UInt8.ofNat c.toNat

namespace Msgpack
open Endian

/-! ### Writer -/

structure Writer where
  buf : Bytes := []
deriving DecidableEq

namespace Writer

def append (w : Writer) (bs : Bytes) : Writer := ⟨w.buf ++ bs⟩

/-- `array_header` and `map_header`, which differ in their tags and in what they throw. -/
def header (fix tag16 : UInt8) (what : String) (w : Writer) (n : Nat) : Except Exn Writer :=
  if n < 16 then .ok (w.append [fix ||| UInt8.ofNat n])
  else if n < 0x10000 then .ok (w.append (tag16 :: toBe 2 n))
  else .error (.invalidArgument what)

def arrayHeader : Writer → Nat → Except Exn Writer :=
  header 0x90 0xdc "msgpack::Writer::array_header: > 65535 elements unsupported"

def mapHeader : Writer → Nat → Except Exn Writer :=
  header 0x80 0xde "msgpack::Writer::map_header: > 65535 pairs unsupported"

def nil (w : Writer) : Writer := w.append [0xc0]
def boolVal (w : Writer) (v : Bool) : Writer := w.append [if v then 0xc3 else 0xc2]
def uint8 (w : Writer) (v : UInt8) : Writer := w.append [0xcc, v]
def uint16 (w : Writer) (v : UInt16) : Writer := w.append (0xcd :: toBe 2 v.toNat)
def uint32 (w : Writer) (v : UInt32) : Writer := w.append (0xce :: toBe 4 v.toNat)

/-- `float32`, given the bits that `memcpy` takes from the float. -/
def float32 (w : Writer) (bits : UInt32) : Writer := w.append (0xca :: toBe 4 bits.toNat)

def str (w : Writer) (s : Bytes) : Except Exn Writer :=
  if s.length < 32 then .ok (w.append ((0xa0 ||| UInt8.ofNat s.length) :: s))
  else if s.length < 256 then .ok (w.append (0xd9 :: UInt8.ofNat s.length :: s))
  else .error (.invalidArgument
    "msgpack::Writer::str: > 255 bytes unsupported (extend to str16 if needed)")

def bin (w : Writer) (data : Bytes) : Except Exn Writer :=
  if 256 ≤ data.length then .error (.invalidArgument
    "msgpack::Writer::bin: > 255 bytes unsupported (extend to bin16 if needed)")
  else .ok (w.append (0xc4 :: UInt8.ofNat data.length :: data))

end Writer

/-! ### Reader -/

structure Reader where
  rest : Bytes
deriving DecidableEq

inductive ElemType where
  | nil | bool | uint | intSigned | float32 | float64 | str | bin | array | map | invalid
deriving DecidableEq

/-- The conversion from `double` to `float`, on their bits: to the nearest, ties to even. -/
def doubleToFloat (bits : Nat) : UInt32 :=
  let sign := bits / 2 ^ 63 % 2
  let e := bits / 2 ^ 52 % 2 ^ 11
  let m := bits % 2 ^ 52
  let magnitude :=
    if e = 2047 then if m = 0 then 0x7f800000 else 0x7fc00000 ||| m >>> 29
    else
      -- the significand counts units of 2 ^ (max e 1 - 1075), the result's units of 2 ^ (q - 149)
      let s := if e = 0 then m else 2 ^ 52 + m
      let q := max e 1 - 897
      let shift := q + 926 - max e 1
      let r := s >>> shift
      let half := 2 ^ (shift - 1)
      let up := half < s % 2 ^ shift ∨ (s % 2 ^ shift = half ∧ r % 2 = 1)
      min (q * 2 ^ 23 + if up then r + 1 else r) 0x7f800000
  UInt32.ofNat (sign * 2 ^ 31 + magnitude)

-- 1.0, -2.5, the largest double, and half the smallest subnormal float
example : [0x3ff0000000000000, 0xc004000000000000, 0x7fefffffffffffff, 0x3690000000000000].map
    doubleToFloat = [0x3f800000, 0xc0200000, 0x7f800000, 0] := by decide

def ElemType.ofTag (t : UInt8) : ElemType :=
  if t = 0xc0 then .nil
  else if t = 0xc2 ∨ t = 0xc3 then .bool
  else if t < 0x80 then .uint
  else if 0xcc ≤ t ∧ t ≤ 0xcf then .uint
  else if 0xe0 ≤ t then .intSigned
  else if 0xd0 ≤ t ∧ t ≤ 0xd3 then .intSigned
  else if t = 0xca then .float32
  else if t = 0xcb then .float64
  else if t &&& 0xe0 = 0xa0 then .str
  else if t = 0xd9 ∨ t = 0xda then .str
  else if t = 0xc4 ∨ t = 0xc5 then .bin
  else if t &&& 0xf0 = 0x90 then .array
  else if t = 0xdc ∨ t = 0xdd then .array
  else if t &&& 0xf0 = 0x80 then .map
  else if t = 0xde ∨ t = 0xdf then .map
  else .invalid

namespace Reader

def atEnd (r : Reader) : Bool := r.rest.isEmpty

/-- `need(n)` and the `n` bytes it makes sure of. -/
def take (r : Reader) (n : Nat) : Option (Bytes × Reader) :=
  if n ≤ r.rest.length then some (r.rest.take n, ⟨r.rest.drop n⟩) else none

/-- `need(1)` and `read_u8`. -/
def readU8 (r : Reader) : Option (UInt8 × Reader) :=
  match r.rest with
  | [] => none
  | t :: rest => some (t, ⟨rest⟩)

/-- `need(k)` and `read_be16`, `read_be32` or `read_be64`, for a `k` of 2, 4 or 8. -/
def readBe (r : Reader) (k : Nat) : Option (Nat × Reader) := do
  let (bs, r) ← r.take k
  return (ofBe bs, r)

def peekType (r : Reader) : ElemType :=
  match r.rest with
  | [] => .invalid
  | t :: _ => .ofTag t

def readNil (r : Reader) : Option Reader := do
  let (t, r) ← r.readU8
  if t = 0xc0 then some r else none

def readBool (r : Reader) : Option (Bool × Reader) := do
  let (t, r) ← r.readU8
  if t = 0xc2 then some (false, r)
  else if t = 0xc3 then some (true, r)
  else none

def readUint (r : Reader) : Option (Nat × Reader) := do
  let (t, r) ← r.readU8
  if t < 0x80 then some (t.toNat, r)
  else if t = 0xcc then r.readBe 1
  else if t = 0xcd then r.readBe 2
  else if t = 0xce then r.readBe 4
  else if t = 0xcf then r.readBe 8
  else none

/-- The cast of `k` bytes to the signed type of that width. -/
def signed (k : Nat) (v : Nat × Reader) : Int × Reader := ((v.1 : Int).bmod (256 ^ k), v.2)

def unsigned (v : Nat × Reader) : Int × Reader := (v.1, v.2)

def readInt (r : Reader) : Option (Int × Reader) := do
  let (t, r) ← r.readU8
  if t < 0x80 then some (t.toNat, r)
  else if 0xe0 ≤ t then some ((t.toNat : Int).bmod (256 ^ 1), r)
  else if t = 0xcc then (r.readBe 1).map unsigned
  else if t = 0xcd then (r.readBe 2).map unsigned
  else if t = 0xce then (r.readBe 4).map unsigned
  else if t = 0xcf then do
    let (v, r) ← r.readBe 8
    -- values above INT64_MAX are refused
    if 2 ^ 63 - 1 < v then none else some ((v : Int), r)
  else if t = 0xd0 then (r.readBe 1).map (signed 1)
  else if t = 0xd1 then (r.readBe 2).map (signed 2)
  else if t = 0xd2 then (r.readBe 4).map (signed 4)
  else if t = 0xd3 then (r.readBe 8).map (signed 8)
  else none

def readFloat32 (r : Reader) : Option (UInt32 × Reader) := do
  let (t, r) ← r.readU8
  if t = 0xca then do
    let (bits, r) ← r.readBe 4
    return (UInt32.ofNat bits, r)
  else if t = 0xcb then do
    let (bits, r) ← r.readBe 8
    return (doubleToFloat bits, r)
  else none

def readStr (r : Reader) : Option (Bytes × Reader) := do
  let (t, r) ← r.readU8
  if t &&& 0xe0 = 0xa0 then r.take (t &&& 0x1f).toNat
  else if t = 0xd9 then do
    let (len, r) ← r.readBe 1
    r.take len
  else if t = 0xda then do
    let (len, r) ← r.readBe 2
    r.take len
  else none

def readBin (r : Reader) : Option (Bytes × Reader) := do
  let (t, r) ← r.readU8
  if t = 0xc4 then do
    let (len, r) ← r.readBe 1
    r.take len
  else if t = 0xc5 then do
    let (len, r) ← r.readBe 2
    r.take len
  else none

/-- `read_array_header` and `read_map_header`, which differ in their tags. -/
def readHeader (fix tag16 tag32 : UInt8) (r : Reader) : Option (Nat × Reader) := do
  let (t, r) ← r.readU8
  if t &&& 0xf0 = fix then some ((t &&& 0x0f).toNat, r)
  else if t = tag16 then r.readBe 2
  else if t = tag32 then r.readBe 4
  else none

def readArrayHeader : Reader → Option (Nat × Reader) := readHeader 0x90 0xdc 0xdd
def readMapHeader : Reader → Option (Nat × Reader) := readHeader 0x80 0xde 0xdf

/-- A `for` loop of `n` steps that ends at the first one that fails. -/
def times (step : Reader → Option Reader) : Nat → Reader → Option Reader
  | 0, r => some r
  | n + 1, r => (step r).bind (times step n)

/-- The body of `skip_value`, with `skip` for its calls of itself. -/
def skipBody (skip : Reader → Option Reader) (r : Reader) : Option Reader :=
  match r.peekType with
  | .nil => r.readNil
  | .bool => r.readBool.map Prod.snd
  | .uint => r.readUint.map Prod.snd
  | .intSigned => r.readInt.map Prod.snd
  | .float32 => r.readFloat32.map Prod.snd
  | .float64 => r.readFloat32.map Prod.snd
  | .str => r.readStr.map Prod.snd
  | .bin => r.readBin.map Prod.snd
  | .array => r.readArrayHeader.bind fun v => times skip v.1 v.2
  | .map => r.readMapHeader.bind fun v => times (fun r => (skip r).bind skip) v.1 v.2
  | .invalid => none

/-- `skip_value`, with a bound on the depth of its recursion. -/
def skipWithin : Nat → Reader → Option Reader
  | 0, _ => none
  | depth + 1, r => skipBody (skipWithin depth) r

/-- `skip_value`: every level of its recursion has read a byte, so the bytes bound the depth. -/
def skipValue (r : Reader) : Option Reader := skipWithin (r.rest.length + 1) r

end Reader
end Msgpack
end Reticulum
