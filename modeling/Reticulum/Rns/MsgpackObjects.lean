import Reticulum.Rns.Msgpack

/-!
# The msgpack writer and reader as objects

`Msgpack` has what a call that succeeds does. Here a call runs on the object's own members, so that
what a throw or an error leaves behind can be seen: the writer's bytes, and the reader's buffer,
offset and flag. A read outside the buffer ends the run.
-/

namespace Reticulum
namespace Msgpack

/-! ### Writer -/

/-- A call on a writer that may throw, over the bytes written so far. -/
abbrev Put := ExceptT Exn (StateM Bytes)

namespace Put

def append (b : UInt8) : Put Unit := modify fun buf => buf ++ [b]
def appendAll (bs : Bytes) : Put Unit := modify fun buf => buf ++ bs

def be16 (v : UInt16) : Put Unit := do
  append ((v >>> 8) &&& 0xff).toUInt8
  append (v &&& 0xff).toUInt8

def be32 (v : UInt32) : Put Unit := do
  append ((v >>> 24) &&& 0xff).toUInt8
  append ((v >>> 16) &&& 0xff).toUInt8
  append ((v >>> 8) &&& 0xff).toUInt8
  append (v &&& 0xff).toUInt8

/-- `array_header` and `map_header`, which differ in their tags and in what they throw. -/
def header (fix : Nat) (tag16 : UInt8) (what : String) (n : Nat) : Put Unit := do
  if n < 16 then
    append (UInt8.ofNat (fix ||| n))
  else if n < 0x10000 then
    append tag16
    be16 (UInt16.ofNat n)
  else
    throw (.invalidArgument what)

def arrayHeader (n : Nat) : Put Unit :=
  header 0x90 0xdc "msgpack::Writer::array_header: > 65535 elements unsupported" n

def mapHeader (n : Nat) : Put Unit :=
  header 0x80 0xde "msgpack::Writer::map_header: > 65535 pairs unsupported" n

def nil : Put Unit := append 0xc0
def boolVal (v : Bool) : Put Unit := append (if v then 0xc3 else 0xc2)

def uint8 (v : UInt8) : Put Unit := do
  append 0xcc
  append v

def uint16 (v : UInt16) : Put Unit := do
  append 0xcd
  be16 v

def uint32 (v : UInt32) : Put Unit := do
  append 0xce
  be32 v

/-- `float32`, given the bits that `memcpy` takes from the float. -/
def float32 (bits : UInt32) : Put Unit := do
  append 0xca
  be32 bits

def str (s : Bytes) : Put Unit := do
  let n := s.length
  if n < 32 then
    append (UInt8.ofNat (0xa0 ||| n))
  else if n < 256 then
    append 0xd9
    append (UInt8.ofNat n)
  else
    throw (.invalidArgument
      "msgpack::Writer::str: > 255 bytes unsupported (extend to str16 if needed)")
  appendAll s

def bin (data : Bytes) : Put Unit := do
  if 256 ≤ data.length then
    throw (.invalidArgument
      "msgpack::Writer::bin: > 255 bytes unsupported (extend to bin16 if needed)")
  append 0xc4
  append (UInt8.ofNat data.length)
  appendAll data

end Put

/-! ### Reader -/

/-- The members of a `Reader`. -/
structure ReaderState where
  buf : Bytes
  off : Nat := 0
  ok : Bool := true
deriving DecidableEq

/-- A call on a reader; `none` is an access outside its buffer. -/
abbrev Call := StateT ReaderState Option

namespace ReaderState

def new (buf : Bytes) : ReaderState := { buf }

def atEnd (r : ReaderState) : Bool := r.buf.length ≤ r.off

/-- `(*_buf)[i]` -/
def byteAt (i : Nat) : Call UInt8 := fun r => r.buf[i]?.map fun b => (b, r)

/-- The `len` bytes from `_buf->data() + i` on. -/
def bytesAt (i len : Nat) : Call Bytes := fun r =>
  if i + len ≤ r.buf.length then some (r.buf.slice i len, r) else none

def advance (n : Nat) : Call Unit := modify fun r => { r with off := r.off + n }
def setFailed : Call Unit := modify fun r => { r with ok := false }

def need (n : Nat) : Call Bool := do
  let r ← get
  if !r.ok then return false
  if r.buf.length < r.off + n then
    setFailed
    return false
  return true

def readU8 : Call UInt8 := do
  let off := (← get).off
  let v ← byteAt off
  advance 1
  return v

def readBe16 : Call UInt16 := do
  let off := (← get).off
  let b₀ ← byteAt off
  let b₁ ← byteAt (off + 1)
  advance 2
  return b₀.toUInt16 <<< 8 ||| b₁.toUInt16

def readBe32 : Call UInt32 := do
  let off := (← get).off
  let b₀ ← byteAt off
  let b₁ ← byteAt (off + 1)
  let b₂ ← byteAt (off + 2)
  let b₃ ← byteAt (off + 3)
  advance 4
  return b₀.toUInt32 <<< 24 ||| b₁.toUInt32 <<< 16 ||| b₂.toUInt32 <<< 8 ||| b₃.toUInt32

def readBe64 : Call UInt64 := do
  let off := (← get).off
  let v ← (List.range 8).foldlM (fun (v : UInt64) i => do
    let b ← byteAt (off + i)
    return v <<< 8 ||| b.toUInt64) 0
  advance 8
  return v

def peekType : Call ElemType := do
  let r ← get
  if r.buf.length ≤ r.off then return .invalid
  let t ← byteAt r.off
  return .ofTag t

def readNil : Call Bool := do
  if !(← need 1) then return false
  let t ← readU8
  if t ≠ 0xc0 then
    setFailed
    return false
  return true

/-- A read is given what its output argument holds, and returns what it holds then. -/
def readBool (out : Bool) : Call (Bool × Bool) := do
  if !(← need 1) then return (false, out)
  let t ← readU8
  if t = 0xc2 then return (true, false)
  if t = 0xc3 then return (true, true)
  setFailed
  return (false, out)

def readUint (out : UInt64) : Call (Bool × UInt64) := do
  if !(← need 1) then return (false, out)
  let t ← readU8
  if t < 0x80 then return (true, t.toUInt64)
  if t = 0xcc then
    if !(← need 1) then return (false, out)
    let v ← readU8
    return (true, v.toUInt64)
  else if t = 0xcd then
    if !(← need 2) then return (false, out)
    let v ← readBe16
    return (true, v.toUInt64)
  else if t = 0xce then
    if !(← need 4) then return (false, out)
    let v ← readBe32
    return (true, v.toUInt64)
  else if t = 0xcf then
    if !(← need 8) then return (false, out)
    let v ← readBe64
    return (true, v)
  else
    setFailed
    return (false, out)

def readInt (out : Int64) : Call (Bool × Int64) := do
  if !(← need 1) then return (false, out)
  let t ← readU8
  if t < 0x80 then return (true, t.toUInt64.toInt64)
  if 0xe0 ≤ t then return (true, t.toInt8.toInt64)
  if t = 0xcc then
    if !(← need 1) then return (false, out)
    let v ← readU8
    return (true, v.toUInt64.toInt64)
  else if t = 0xcd then
    if !(← need 2) then return (false, out)
    let v ← readBe16
    return (true, v.toUInt64.toInt64)
  else if t = 0xce then
    if !(← need 4) then return (false, out)
    let v ← readBe32
    return (true, v.toUInt64.toInt64)
  else if t = 0xcf then
    if !(← need 8) then return (false, out)
    let v ← readBe64
    if Int64.maxValue.toUInt64 < v then
      setFailed
      return (false, out)
    return (true, v.toInt64)
  else if t = 0xd0 then
    if !(← need 1) then return (false, out)
    let v ← readU8
    return (true, v.toInt8.toInt64)
  else if t = 0xd1 then
    if !(← need 2) then return (false, out)
    let v ← readBe16
    return (true, v.toInt16.toInt64)
  else if t = 0xd2 then
    if !(← need 4) then return (false, out)
    let v ← readBe32
    return (true, v.toInt32.toInt64)
  else if t = 0xd3 then
    if !(← need 8) then return (false, out)
    let v ← readBe64
    return (true, v.toInt64)
  else
    setFailed
    return (false, out)

/-- `read_float32`, on the bits of the float. -/
def readFloat32 (out : UInt32) : Call (Bool × UInt32) := do
  if !(← need 1) then return (false, out)
  let t ← readU8
  if t = 0xca then
    if !(← need 4) then return (false, out)
    let bits ← readBe32
    return (true, bits)
  if t = 0xcb then
    if !(← need 8) then return (false, out)
    let bits ← readBe64
    return (true, doubleToFloat bits.toNat)
  setFailed
  return (false, out)

/-- The end of `read_str` and `read_bin`, once they have their length. -/
def readBytes (len : Nat) (out : Bytes) : Call (Bool × Bytes) := do
  if !(← need len) then return (false, out)
  let v ← bytesAt (← get).off len
  advance len
  return (true, v)

def readStr (out : Bytes) : Call (Bool × Bytes) := do
  if !(← need 1) then return (false, out)
  let t ← readU8
  if t &&& 0xe0 = 0xa0 then
    readBytes (t &&& 0x1f).toNat out
  else if t = 0xd9 then
    if !(← need 1) then return (false, out)
    let len ← readU8
    readBytes len.toNat out
  else if t = 0xda then
    if !(← need 2) then return (false, out)
    let len ← readBe16
    readBytes len.toNat out
  else
    setFailed
    return (false, out)

def readBin (out : Bytes) : Call (Bool × Bytes) := do
  if !(← need 1) then return (false, out)
  let t ← readU8
  if t = 0xc4 then
    if !(← need 1) then return (false, out)
    let len ← readU8
    readBytes len.toNat out
  else if t = 0xc5 then
    if !(← need 2) then return (false, out)
    let len ← readBe16
    readBytes len.toNat out
  else
    setFailed
    return (false, out)

/-- `read_array_header` and `read_map_header`, which differ in their tags. -/
def readHeader (fix tag16 tag32 : UInt8) (out : Nat) : Call (Bool × Nat) := do
  if !(← need 1) then return (false, out)
  let t ← readU8
  if t &&& 0xf0 = fix then return (true, (t &&& 0x0f).toNat)
  if t = tag16 then
    if !(← need 2) then return (false, out)
    let n ← readBe16
    return (true, n.toNat)
  if t = tag32 then
    if !(← need 4) then return (false, out)
    let n ← readBe32
    return (true, n.toNat)
  setFailed
  return (false, out)

def readArrayHeader (out : Nat) : Call (Bool × Nat) := readHeader 0x90 0xdc 0xdd out
def readMapHeader (out : Nat) : Call (Bool × Nat) := readHeader 0x80 0xde 0xdf out

/-- A `for` loop of `n` turns that returns false at the first one that does. -/
def times (turn : Call Bool) : Nat → Call Bool
  | 0 => return true
  | n + 1 => do
    if !(← turn) then return false
    times turn n

/-- The body of `skip_value`, with `skip` for its calls of itself. What it reads goes into locals
that nothing looks at. -/
def skipBody (skip : Call Bool) : Call Bool := do
  match ← peekType with
  | .nil => readNil
  | .bool => return (← readBool false).1
  | .uint => return (← readUint 0).1
  | .intSigned => return (← readInt 0).1
  | .float32 => return (← readFloat32 0).1
  | .float64 => return (← readFloat32 0).1
  | .str => return (← readStr []).1
  | .bin => return (← readBin []).1
  | .array =>
    let (read, n) ← readArrayHeader 0
    if !read then return false
    times skip n
  | .map =>
    let (read, n) ← readMapHeader 0
    if !read then return false
    times (do
      if !(← skip) then return false
      skip) n
  | .invalid =>
    setFailed
    return false

/-- `skip_value`, with a bound on the depth of its recursion; a run that reaches it has no result
either. -/
def skipWithin : Nat → Call Bool
  | 0 => failure
  | depth + 1 => skipBody (skipWithin depth)

def skipValue : Call Bool := do
  let r ← get
  skipWithin (r.buf.length - r.off + 1)

end ReaderState
end Msgpack
end Reticulum
