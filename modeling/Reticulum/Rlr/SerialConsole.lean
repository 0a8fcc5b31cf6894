import Reticulum.Rlr.ConfigProtocol

/-!
# The serial adapter of the configuration endpoint (`SerialConsole`)

A frame is a two-byte length, most significant byte first, and that many bytes of a request. The
state between two calls of `tick` is a few static variables and a buffer of fixed size.
-/

namespace Reticulum
namespace SerialConsole

def maxFrameLen : Nat := 1024

inductive State where
  | lenHi | lenLo | payload
deriving DecidableEq

/-- `s_buf`. -/
abbrev FrameBuf := {b : Bytes // b.length = maxFrameLen}

/-- The static variables. -/
structure Console where
  state : State
  expected : UInt16
  received : Nat
  buf : FrameBuf
deriving DecidableEq

/-- `reset`. The buffer stays as it is. -/
def Console.reset (c : Console) : Console :=
  { c with state := .lenHi, expected := 0, received := 0 }

/-- As after `reset`, and before the first call of `tick`. -/
def Console.IsReset (c : Console) : Prop := c.reset = c

/-- What `tick` has to do with apart from its own state: the configuration, the state the save
callback works on, the requests it has handed to `handle_request`, and the bytes written out. -/
structure Io (σ : Type) where
  cfg : Config
  caller : σ
  requests : List Bytes
  written : Bytes

def Console.put (c : Console) (b : UInt8) : Console :=
  { c with
    buf := ⟨c.buf.1.set c.received b, by rw [List.length_set, c.buf.2]⟩
    received := c.received + 1 }

/-- `s_buf[s_received++] = b`. -/
def store (c : Console) (b : UInt8) : Except Fault Console :=
  if c.received < maxFrameLen then .ok (c.put b) else .error .outOfBounds

/-- `rns::Bytes req(s_buf, s_expected)`. -/
def request (c : Console) : Except Fault Bytes :=
  if c.expected.toNat ≤ maxFrameLen then .ok (c.buf.1.take c.expected.toNat)
  else .error .outOfBounds

variable {σ : Type}

def sendResponse (io : Io σ) (resp : Bytes) : Io σ :=
  if resp.length > 0xFFFF then io
  else
    let n := UInt16.ofNat resp.length
    { io with written := io.written ++ [(n >>> 8).toUInt8, n.toUInt8] ++ resp }

def serve (fw : FwVersion) (transport : Option Transport) (save : SaveFn σ) (io : Io σ)
    (req : Bytes) : Except Fault (Io σ) :=
  let (resp, cfg, caller) :=
    ConfigProtocol.handleRequest fw req io.cfg transport save io.caller
  resp.map (sendResponse { io with cfg, caller, requests := io.requests ++ [req] })

/-- The body of the loop of `tick` for one byte. -/
def tickByte (fw : FwVersion) (transport : Option Transport) (save : SaveFn σ)
    (p : Console × Io σ) (b : UInt8) : Except Fault (Console × Io σ) :=
  let (c, io) := p
  match c.state with
  | .lenHi => .ok ({ c with expected := b.toUInt16 <<< 8, state := .lenLo }, io)
  | .lenLo =>
    let expected := c.expected ||| b.toUInt16
    if expected = 0 ∨ expected.toNat > maxFrameLen then .ok ({ c with expected }.reset, io)
    else .ok ({ c with expected, received := 0, state := .payload }, io)
  | .payload => do
    let c ← store c b
    if c.received ≥ c.expected.toNat then
      let req ← request c
      let io ← serve fw transport save io req
      return (c.reset, io)
    else return (c, io)

/-- The arguments of one call of `tick`, the caller's state, and the bytes that it reads before
`available` or `read` finds no more. -/
structure TickCall (σ : Type) where
  cfg : Config
  transport : Option Transport
  save : SaveFn σ
  caller : σ
  available : Bytes

def tick (fw : FwVersion) (c : Console) (call : TickCall σ) : Except Fault (Console × Io σ) :=
  call.available.foldlM (tickByte fw call.transport call.save) (c, ⟨call.cfg, call.caller, [], []⟩)

/-- Calls one after another, with all the requests they handed over. -/
def ticks (fw : FwVersion) : Console → List (TickCall σ) → Except Fault (Console × List Bytes)
  | c, [] => .ok (c, [])
  | c, call :: rest => do
    let (c, io) ← tick fw c call
    let (c, requests) ← ticks fw c rest
    return (c, io.requests ++ requests)

end SerialConsole
end Reticulum
