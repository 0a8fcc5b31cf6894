import Reticulum.Rlr.Config

/-!
# Packets in LoRa frames (`Radio`)

A packet of up to 254 bytes goes out as one frame, a longer one as two with the same header byte.
The receiver buffers a first half and joins it with the second. Every `memcpy` is checked against
the sizes of the arrays it touches. What the chip does is an argument: whether a frame is there,
its bytes, how a call went.
-/

namespace Reticulum
namespace Radio

def flagSplit : UInt8 := 0x01
def singleMtu : Nat := 255
def maxPayload : Nat := 508

/-- `sizeof(s_split_buf)` and `sizeof(rx_tmp)`. -/
def bufSize : Nat := 512

/-- `sizeof(tx_buf)`. -/
def txBufSize : Nat := 256

/-- `RADIOLIB_ERR_NONE`. -/
def errNone : Int := 0

/-- `memcpy` of `src` to `offset` in an array of `size` bytes. -/
def memcpy (size offset : Nat) (src : Bytes) : Except Fault Bytes :=
  if offset + src.length ≤ size then .ok src else .error .outOfBounds

/-- `millis()` at a time in milliseconds since boot. -/
def millis (t : Nat) : UInt32 := UInt32.ofNat t

/-- `uint8_t s_split_buf[512]`. -/
abbrev SplitBuf := {b : Bytes // b.length = bufSize}

/-- `memcpy` to the front of `s_split_buf`. -/
def SplitBuf.write (dst : SplitBuf) (src : Bytes) : Except Fault SplitBuf :=
  if h : src.length ≤ bufSize then
    .ok ⟨src ++ dst.1.drop src.length, by
      rw [List.length_append, List.length_drop, dst.2]
      omega⟩
  else .error .outOfBounds

/-- The first `n` bytes of `s_split_buf`. -/
def SplitBuf.front (src : SplitBuf) (n : Nat) : Except Fault Bytes :=
  if n ≤ bufSize then .ok (src.1.take n) else .error .outOfBounds

/-- The `s_split_` variables. -/
structure Reassembly where
  splitBuf : SplitBuf
  splitLen : Nat
  splitSeq : UInt8
  splitMs : UInt32
deriving DecidableEq

def noSeq : UInt8 := 0xFF

/-- A frame the chip has received, and whether `readData` succeeds on it. -/
structure Reception where
  bytes : Bytes
  readOk : Bool
deriving DecidableEq

/-- One call of `read_pending`: what has been received since the last, if anything, and the times
of its two readings of the clock. -/
structure Call where
  reception : Option Reception
  checkedAt : Nat
  storedAt : Nat

/-- The timeout check at the start of `read_pending`. -/
def expire (s : Reassembly) (t : Nat) : Reassembly :=
  if s.splitSeq ≠ noSeq ∧ millis t - s.splitMs > 500 then
    { s with splitSeq := noSeq, splitLen := 0 }
  else s

/-- `read_pending`: its result, the bytes in `buf` if that is positive, and the state after it. -/
def readPending (s : Reassembly) (bufsize : Nat) (call : Call) :
    Except Fault ((Int × Bytes) × Reassembly) :=
  let s := expire s call.checkedAt
  match call.reception with
  | none => .ok ((0, []), s)
  | some f =>
    let len := f.bytes.length
    if len = 0 then .ok ((0, []), s)
    else if len > bufSize then .ok ((-1, []), s)
    else if !f.readOk || len < 2 then .ok ((0, []), s)
    else
      let rnodeHdr := f.bytes.byteAt 0
      let seq := (rnodeHdr >>> 4) &&& 0x0F
      let payload := f.bytes.sliceFrom 1
      let payloadLen := len - 1
      if rnodeHdr &&& flagSplit ≠ 0 then
        if s.splitSeq = noSeq then
          if payloadLen > bufSize then .ok ((0, []), s)
          else do
            let splitBuf ← s.splitBuf.write payload
            .ok ((0, []), ⟨splitBuf, payloadLen, seq, millis call.storedAt⟩)
        else if seq = s.splitSeq then
          let total := s.splitLen + payloadLen
          let s' := { s with splitSeq := noSeq, splitLen := 0 }
          if total > bufsize ∨ total > maxPayload then .ok ((0, []), s')
          else do
            let half ← s.splitBuf.front s.splitLen
            let first ← memcpy bufsize 0 half
            let second ← memcpy bufsize s.splitLen payload
            .ok ((total, first ++ second), s')
        else do
          -- another sender's first half takes the place of this one
          let splitBuf ← s.splitBuf.write payload
          .ok ((0, []), ⟨splitBuf, payloadLen, seq, millis call.storedAt⟩)
      else do
        let payloadLen := if payloadLen > bufsize then bufsize else payloadLen
        let out ← memcpy bufsize 0 (payload.take payloadLen)
        .ok ((payloadLen, out), s)

/-- Successive calls of `read_pending` with one buffer, and the results of each. -/
def readAll (s : Reassembly) (bufsize : Nat) :
    List Call → Except Fault (List (Int × Bytes) × Reassembly)
  | [] => .ok ([], s)
  | call :: calls => do
    let (result, s) ← readPending s bufsize call
    let (results, s) ← readAll s bufsize calls
    .ok (result :: results, s)

/-- `_tx_frame`: its result and the frames handed to the chip, whose call returns `state`. -/
def txFrame (header : UInt8) (payload : Bytes) (state : Int) : Except Fault (Int × List Bytes) :=
  if payload.length + 1 > txBufSize then .ok (-1, [])
  else do
    let rest ← memcpy txBufSize 1 payload
    .ok (state, [header :: rest])

/-- `transmit` on a radio that is online or not: `random` is the number drawn for the header, and
the chip's two transmissions return `state₁` and `state₂`. -/
def transmit (online : Bool) (random : Nat) (state₁ state₂ : Int) (buf : Bytes) :
    Except Fault (Int × List Bytes) :=
  if !online then .ok (-1, [])
  else if buf.length > maxPayload then .ok (-1, [])
  else
    let result (state : Int) : Int := if state = errNone then buf.length else -1
    let header := UInt8.ofNat (random % 256) &&& 0xF0
    if buf.length ≤ singleMtu - 1 then do
      let (state, frames) ← txFrame header buf state₁
      .ok (result state, frames)
    else do
      let header := header ||| flagSplit
      let firstLen := singleMtu - 1
      let (state, frames) ← txFrame header (buf.take firstLen) state₁
      if state = errNone then do
        let (state, more) ← txFrame header (buf.drop firstLen) state₂
        .ok (result state, frames ++ more)
      else .ok (result state, frames)

end Radio
end Reticulum
