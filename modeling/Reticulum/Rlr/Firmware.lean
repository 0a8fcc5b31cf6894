import Reticulum.Rlr.ConfigStore
import Reticulum.Rlr.Radio
import Reticulum.Rlr.SerialConsole
import Reticulum.Rns.Telemetry
import Reticulum.Rns.Transport.Callbacks

/-!
# The firmware (`main.cpp`)

`setup` and `loop` over the modules they wire together. What comes from outside is in their inputs:
how the calls of the file system and of the radio go, the clock, random numbers, the battery, and
the bytes on the serial line. What is printed for the operator is left out.
-/

namespace Reticulum

/-- The bits of the float nearest to `n / d`, ties to even, for a quotient that has a normal one. -/
def floatOfRatio (n d : Nat) : Nat :=
  if n = 0 then 0
  else
    -- `2 ^ e ≤ n / d < 2 ^ (e + 1)`, and one unit in the last place is `2 ^ (e - 23)`
    let e : Int := (n.log2 : Int) - d.log2
    let e := if n * 2 ^ (-e).toNat < d * 2 ^ e.toNat then e - 1 else e
    let num := n * 2 ^ (23 - e).toNat
    let den := d * 2 ^ (e - 23).toNat
    let r := num / den
    let up := den < 2 * (num % den) ∨ (2 * (num % den) = den ∧ r % 2 = 1)
    ((e + 126) * 2 ^ 23).toNat + if up then r + 1 else r

namespace Firmware

def identityFile : String := "/identity.bin"
def telemetryAlivePeriodMs : Nat := 5 * 60 * 1000
def telemetryBeaconPeriodMs : Nat := 2 * 60 * 60 * 1000
def telemetryDestName : Bytes := ascii "transport.telemetry"

/-- `g_lora_iface`, the one interface. -/
def loraIface : IfaceId := 0

/-- `iface_cfg`, with a cap of 2 % of one hour. -/
def ifaceCfg : Interface.Config where
  bitrateBps := 1953
  windowCapMs := 72000
  maxQueuedAnnounces := 64
  airtimeWindowMs := 60 * 60 * 1000
  hwMtuBytes := 500

/-- The bits of `static_cast<float>(udeg) / 1000000.0f`. -/
def degrees (udeg : Int32) : UInt32 :=
  let n := udeg.toInt.natAbs
  let q := if n = 0 then 0
    else
      let f := floatOfRatio n 1
      let e := f / 2 ^ 23
      floatOfRatio ((2 ^ 23 + f % 2 ^ 23) * 2 ^ (e - 150)) (1000000 * 2 ^ (150 - e))
  UInt32.ofNat (if udeg < 0 then 2 ^ 31 + q else q)

-- both conversions round: 33554435 to 33554436.0f, and that over a million once more
example : [37774900, -122419400, 0, 33554435].map degrees =
    [0x4217197f, 0xc2f4d6bc, 0, 0x420637be] := by decide

/-- `make_telemetry_snapshot`, given what `battery::read_mv` returns. -/
def makeTelemetrySnapshot (cfg : Config) (batteryMv : UInt16) (t : Transport) :
    Except Fault Telemetry.Snapshot := do
  let name ← ConfigProtocol.cString cfg.displayName
  let st := t.stats
  let s : Telemetry.Snapshot := {
    batteryMv
    name
    routeCount := UInt16.ofNat t.paths.size
    packetsForwarded := UInt32.ofNat (st .announcesRebroadcast + st .dataForwardedHeader1 +
      st .dataForwardedHeader2 + st .proofForwarded + st .linkDataForwarded)
    announcesRebroadcast := UInt32.ofNat (st .announcesRebroadcast)
    dataForwarded := UInt32.ofNat (st .dataForwardedHeader1 + st .dataForwardedHeader2)
    inboundPackets := UInt32.ofNat (st .inboundPackets) }
  return if cfg.latitudeUdeg ≠ 0 ∨ cfg.longitudeUdeg ≠ 0 then
    { s with
      havePosition := true
      lat := degrees cfg.latitudeUdeg
      lon := degrees cfg.longitudeUdeg }
  else s

/-- The callback of the beacon's schedule. -/
def beaconPayload (cfg : Config) (batteryMv : UInt16) (t : Transport) : Except Fault Bytes := do
  let s ← makeTelemetrySnapshot cfg batteryMv t
  ConfigProtocol.lift (Telemetry.encode s)

/-- `announce_seed_fn`, given the random bytes and the clock that its calls find. -/
def announceSeedFn (random : Nat → Vector UInt8 5) (clock : Nat → Nat) (n : Nat) : AnnounceSeed :=
  ⟨(random n).toList, (Radio.millis (clock n)).toNat / 1000⟩

/-- `Rptr-` and the first four bytes of the identity hash. -/
def defaultName (identity : Identity) : Bytes :=
  ascii "Rptr-" ++ Bytes.toHex (identity.identityHash.slice 0 4)

/-! ### `setup` -/

/-- The state the firmware keeps between two calls of `loop`. -/
structure Device where
  cfg : Config
  fs : Fs
  /-- `s_online` of the radio -/
  radioOnline : Bool
  reassembly : Radio.Reassembly
  node : Transport
  console : SerialConsole.Console

/-- What one `setup` meets. -/
structure SetupInput where
  mounts : Bool := true
  configLoad : LoadCalls := {}
  radioOnline : Bool := true
  identityRead : ReadCalls := {}
  /-- the bytes a fresh identity would be made of -/
  fresh : {b : Bytes // b.length = 64}
  identityWrite : WriteCalls := {}
  nameSave : SaveCalls := {}
  seedBytes : Nat → Vector UInt8 5
  seedClock : Nat → Nat

theorem length_clearBuf : (List.replicate Radio.bufSize (0 : UInt8)).length = Radio.bufSize :=
  List.length_replicate

/-- The static variables of the radio and of the console. -/
def noReassembly : Radio.Reassembly :=
  ⟨⟨List.replicate Radio.bufSize 0, length_clearBuf⟩, 0, Radio.noSeq, 0⟩

def newConsole : SerialConsole.Console :=
  ⟨.lenHi, 0, 0, ⟨List.replicate SerialConsole.maxFrameLen 0, List.length_replicate⟩⟩

/-- `load_or_generate_identity`: the 64 bytes it builds the identity from. -/
def loadOrGenerate (fs : Fs) (i : SetupInput) : Bytes × Fs :=
  match Storage.loadFile fs identityFile 64 i.identityRead with
  | some priv =>
    if priv.length = 64 then (priv, fs)
    else (i.fresh.1, (Storage.saveFile fs identityFile i.fresh.1 i.identityWrite).2)
  | none => (i.fresh.1, (Storage.saveFile fs identityFile i.fresh.1 i.identityWrite).2)

/-- The default for an empty display name. -/
def assignName (identity : Identity) (cfg : Config) (fs : Fs) (calls : SaveCalls) : Config × Fs :=
  if cfg.displayName.1.byteAt 0 = 0 then
    let cfg := { cfg with
      displayName := ConfigProtocol.setName cfg.displayName (defaultName identity) }
    (cfg, (ConfigStore.save fs calls cfg).2)
  else (cfg, fs)

variable [CryptoLib]

/-- The calls that set up the node, with nothing yet for the beacon's callback to return. -/
def bringUp (telDest : Destination) (i : SetupInput) : List Action := [
  .registerInterface loraIface,
  .setAnnounceSeedFn (some (announceSeedFn i.seedBytes i.seedClock)),
  .registerLocalDestination telDest,
  .scheduleAnnounce telDest.destinationHash telemetryAlivePeriodMs none 0,
  .scheduleAnnounce telDest.destinationHash telemetryBeaconPeriodMs (some fun _ => []) 0]

def setup (flash : Fs) (i : SetupInput) : Except Exn Device := do
  let fs := { flash with mounted := i.mounts }
  let cfg := (ConfigStore.load fs i.configLoad).getD {}
  let (priv, fs) := loadOrGenerate fs i
  let identity ← Identity.fromPrivateBytes priv
  let (cfg, fs) := assignName identity cfg fs i.nameSave
  let telDest ← Destination.new identity telemetryDestName
  let node ← (bringUp telDest i).foldlM Transport.step
    (Transport.new identity true fun _ => ifaceCfg)
  return {
    cfg, fs, node
    radioOnline := i.radioOnline
    reassembly := noReassembly
    console := newConsole }

/-! ### `loop` -/

/-- What one `transmit` meets: the number drawn for the header, and how the chip's calls go. -/
structure ChipCalls where
  random : Nat
  state₁ : Int
  state₂ : Int

/-- What one `loop` meets. -/
structure LoopInput where
  /-- milliseconds since the start -/
  time : Nat
  batteryMv : UInt16
  /-- the call of `read_pending`, when `rx_pending` says so -/
  rx : Option Radio.Call
  chip : Nat → ChipCalls
  serial : Bytes
  saves : List SaveCalls

/-- What one `loop` puts out: frames on the air, and bytes on the serial line. -/
structure LoopOutput where
  frames : List Bytes
  written : Bytes

/-- The save callback. -/
def saveConfig : SaveFn (Fs × List SaveCalls) := some fun cfg s =>
  let (ok, fs) := ConfigStore.save s.1 (s.2.headD {}) cfg
  (ok, (fs, s.2.tail))

/-- `LoRaInterface::on_transmit` for each of these wires. -/
def transmitAll (online : Bool) (chip : Nat → ChipCalls) :
    Nat → List Bytes → Except Fault (List Bytes)
  | _, [] => .ok []
  | n, wire :: wires => do
    let (_, frames) ← Radio.transmit online (chip n).random (chip n).state₁ (chip n).state₂ wire
    let more ← transmitAll online chip (n + 1) wires
    return frames ++ more

def beaconDue (t : Transport) (now : Nat) : Bool :=
  t.scheduledAnnounces.any fun s => s.fn.isSome && decide (s.nextEmitMs ≤ now)

/-- What the beacon's callback returns if the node calls it in this tick. It runs after the
rebroadcasts, and the announces sent before it touch nothing that it reads. -/
def payloadAt (d : Device) (batteryMv : UInt16) (now : Nat) : Except Fault Bytes :=
  if beaconDue d.node now then
    beaconPayload d.cfg batteryMv (d.node.driveAnnounceRebroadcast now)
  else .ok []

/-- `g_transport->tick`. -/
def tickNode (d : Device) (batteryMv : UInt16) (now : Nat) : Except Fault Transport := do
  let payload ← payloadAt d batteryMv now
  ConfigProtocol.lift ((d.node.withFn fun _ => payload).step (.tick now))

/-- `read_pending` and `g_transport->inbound`: what the latter transmits, and the states after. -/
def receive (s : Radio.Reassembly) (t : Transport) (rx : Option Radio.Call) (now : Nat) :
    Except Fault (List Bytes × Radio.Reassembly × Transport) :=
  match rx with
  | none => .ok ([], s, t)
  | some call => do
    let ((n, buf), s) ← Radio.readPending s 512 call
    if 0 < n then do
      let t ← ConfigProtocol.lift (t.step (.inbound loraIface buf now))
      return (t.transmissions.map Prod.snd, s, t)
    else return ([], s, t)

def loop (fw : FwVersion) (d : Device) (i : LoopInput) : Except Fault (LoopOutput × Device) := do
  let now := (Radio.millis i.time).toNat
  let node ← tickNode d i.batteryMv now
  let sent := node.transmissions.map Prod.snd
  let (replies, reassembly, node) ← receive d.reassembly node i.rx now
  let frames ← transmitAll d.radioOnline i.chip 0 (sent ++ replies)
  let (console, io) ← SerialConsole.tick fw d.console
    ⟨d.cfg, some node, saveConfig, (d.fs, i.saves), i.serial⟩
  return (⟨frames, io.written⟩,
    { d with cfg := io.cfg, fs := io.caller.1, reassembly, node, console })

/-- The write callback of the Bluetooth service: the notification, and the device after it. -/
def onRequestWrite (fw : FwVersion) (d : Device) (request : Bytes) (saves : List SaveCalls) :
    Except Fault (Bytes × Device) :=
  let (response, cfg, s) :=
    ConfigProtocol.handleRequest fw request d.cfg (some d.node) saveConfig (d.fs, saves)
  response.map fun bytes => (bytes, { d with cfg, fs := s.1 })

end Firmware
end Reticulum
