import Reticulum.Rlr.Config
import Reticulum.Rns.Msgpack
import Reticulum.Rns.Transport.Basic

/-!
# The configuration endpoint (`ConfigProtocol`)

A request is a msgpack map whose first pair names a command. The save callback is a function on a
state `σ` of the caller's: the file system, for the firmware.
-/

namespace Reticulum
open Msgpack

/-- `FW_VERSION`, which the build injects. -/
abbrev FwVersion := Bytes

/-- `SaveFn`; `none` is the null function. -/
abbrev SaveFn (σ : Type) := Option (Config → σ → Bool × σ)

namespace ConfigProtocol

/-- The string in a `char` array: its bytes up to the first NUL, if it has one. -/
def cString (name : DisplayName) : Except Fault Bytes :=
  if name.1.contains 0 then .ok (name.1.takeWhile (· ≠ 0)) else .error .outOfBounds

def lift {α : Type} (x : Except Exn α) : Except Fault α := x.mapError .threw

def errorResponse (msg : String) : Except Exn Bytes := do
  let w : Writer := {}
  let w ← w.mapHeader 2
  let w ← w.str (ascii "ok")
  let w := w.boolVal false
  let w ← w.str (ascii "err")
  let w ← w.str (ascii msg)
  return w.buf

def handlePing (fw : FwVersion) (transport : Option Transport) : Except Exn Bytes := do
  let w : Writer := {}
  match transport with
  | some t =>
    let w ← w.mapHeader 3
    let w ← w.str (ascii "ok")
    let w := w.boolVal true
    let w ← w.str (ascii "identity_hash")
    let w ← w.bin t.localIdentity.identityHash
    let w ← w.str (ascii "version")
    let w ← w.str fw
    return w.buf
  | none =>
    let w ← w.mapHeader 2
    let w ← w.str (ascii "ok")
    let w := w.boolVal true
    let w ← w.str (ascii "version")
    let w ← w.str fw
    return w.buf

def handleGetConfig (cfg : Config) : Except Fault Bytes := do
  let name ← cString cfg.displayName
  lift do
    let w : Writer := {}
    let w ← w.mapHeader 11
    let w ← w.str (ascii "ok")
    let w := w.boolVal true
    let w ← w.str (ascii "freq_hz")
    let w := w.uint32 cfg.freqHz
    let w ← w.str (ascii "bw_hz")
    let w := w.uint32 cfg.bwHz
    let w ← w.str (ascii "sf")
    let w := w.uint8 cfg.sf
    let w ← w.str (ascii "cr")
    let w := w.uint8 cfg.cr
    let w ← w.str (ascii "txp_dbm")
    let w := w.uint32 cfg.txpDbm.toInt32.toUInt32
    let w ← w.str (ascii "lat_udeg")
    let w := w.uint32 cfg.latitudeUdeg.toUInt32
    let w ← w.str (ascii "lon_udeg")
    let w := w.uint32 cfg.longitudeUdeg.toUInt32
    let w ← w.str (ascii "alt_m")
    let w := w.uint32 cfg.altitudeM.toUInt32
    let w ← w.str (ascii "batt_mult")
    let w := w.float32 cfg.battMult
    let w ← w.str (ascii "display_name")
    let w ← w.str name
    return w.buf

/-- `memcpy` of at most 31 bytes of `v` over the name, and the NUL behind them. -/
def setName (name : DisplayName) (v : Bytes) : DisplayName :=
  let n := if v.length < 31 then v.length else 31
  ⟨v.take n ++ 0 :: name.1.drop (n + 1), by
    have hn : n ≤ v.length ∧ n ≤ 31 := by
      show (if v.length < 31 then v.length else 31) ≤ v.length ∧
        (if v.length < 31 then v.length else 31) ≤ 31
      split <;> omega
    have hname := name.2
    simp only [List.length_append, List.length_take, List.length_cons, List.length_drop]
    omega⟩

/-- What the loop of `apply_set_fields` does with the value of one key: the reader behind it, the
configuration, and what is added to `applied`. -/
def applyValue (key : Bytes) (r : Reader) (cfg : Config) : Option (Reader × Config × Nat) :=
  if key = ascii "freq_hz" then do
    let (v, r) ← r.readInt
    return (r, { cfg with freqHz := UInt32.ofInt v }, 1)
  else if key = ascii "bw_hz" then do
    let (v, r) ← r.readInt
    return (r, { cfg with bwHz := UInt32.ofInt v }, 1)
  else if key = ascii "sf" then do
    let (v, r) ← r.readInt
    return (r, { cfg with sf := UInt8.ofInt v }, 1)
  else if key = ascii "cr" then do
    let (v, r) ← r.readInt
    return (r, { cfg with cr := UInt8.ofInt v }, 1)
  else if key = ascii "txp_dbm" then do
    let (v, r) ← r.readInt
    return (r, { cfg with txpDbm := Int8.ofInt v }, 1)
  else if key = ascii "lat_udeg" then do
    let (v, r) ← r.readInt
    return (r, { cfg with latitudeUdeg := Int32.ofInt v }, 1)
  else if key = ascii "lon_udeg" then do
    let (v, r) ← r.readInt
    return (r, { cfg with longitudeUdeg := Int32.ofInt v }, 1)
  else if key = ascii "alt_m" then do
    let (v, r) ← r.readInt
    return (r, { cfg with altitudeM := Int32.ofInt v }, 1)
  else if key = ascii "batt_mult" then do
    let (v, r) ← r.readFloat32
    return (r, { cfg with battMult := v }, 1)
  else if key = ascii "display_name" then do
    let (v, r) ← r.readStr
    return (r, { cfg with displayName := setName cfg.displayName v }, 1)
  else do
    let r ← r.skipValue
    return (r, cfg, 0)

/-- `apply_set_fields`: `none` for its `-1`, and the configuration as it then is. -/
def applySetFields : Nat → Reader → Config → Nat → Option Nat × Config
  | 0, _, cfg, applied => (some applied, cfg)
  | n + 1, r, cfg, applied =>
    match r.readStr with
    | none => (none, cfg)
    | some (key, r) =>
      match applyValue key r cfg with
      | none => (none, cfg)
      | some (r, cfg, k) => applySetFields n r cfg (applied + k)

def handleSetConfig (r : Reader) (cfg : Config) (pairsRemaining : Nat) :
    Except Exn Bytes × Config :=
  match applySetFields pairsRemaining r cfg 0 with
  | (none, cfg) => (errorResponse "malformed set_config payload", cfg)
  | (some applied, cfg) =>
    let response := do
      let w : Writer := {}
      let w ← w.mapHeader 2
      let w ← w.str (ascii "ok")
      let w := w.boolVal true
      let w ← w.str (ascii "set")
      return (w.uint16 (UInt16.ofNat applied)).buf
    (response, cfg)

def handleCommit {σ : Type} (cfg : Config) (save : SaveFn σ) (s : σ) : Except Exn Bytes × σ :=
  match save with
  | none => (errorResponse "commit not configured", s)
  | some save =>
    match save cfg s with
    | (false, s) => (errorResponse "commit failed", s)
    | (true, s) =>
      let response := do
        let w : Writer := {}
        let w ← w.mapHeader 1
        let w ← w.str (ascii "ok")
        return (w.boolVal true).buf
      (response, s)

/-- `handle_request`: the response, and the configuration and the caller's state after it. -/
def handleRequest {σ : Type} (fw : FwVersion) (request : Bytes) (cfg : Config)
    (transport : Option Transport) (save : SaveFn σ) (s : σ) :
    Except Fault Bytes × Config × σ :=
  match Reader.readMapHeader ⟨request⟩ with
  | none => (lift (errorResponse "expected msgpack map at top level"), cfg, s)
  | some (0, _) => (lift (errorResponse "empty request map"), cfg, s)
  | some (pairsRemaining + 1, r) =>
    match r.readStr with
    | none => (lift (errorResponse "expected string key at position 0"), cfg, s)
    | some (firstKey, r) =>
      if firstKey ≠ ascii "cmd" then
        (lift (errorResponse "first map key must be 'cmd'"), cfg, s)
      else
        match r.readStr with
        | none => (lift (errorResponse "'cmd' value must be a string"), cfg, s)
        | some (cmd, r) =>
          if cmd = ascii "ping" then (lift (handlePing fw transport), cfg, s)
          else if cmd = ascii "get_config" then (handleGetConfig cfg, cfg, s)
          else if cmd = ascii "commit" then
            let (response, s) := handleCommit cfg save s
            (lift response, cfg, s)
          else if cmd = ascii "set_config" then
            let (response, cfg) := handleSetConfig r cfg pairsRemaining
            (lift response, cfg, s)
          else (lift (errorResponse "unknown command"), cfg, s)

end ConfigProtocol
end Reticulum
