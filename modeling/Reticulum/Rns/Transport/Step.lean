import Reticulum.Rns.Transport.Forward
import Reticulum.Rns.Transport.PathRequest

/-! # `inbound`, `tick` and the rest of the public API -/

namespace Reticulum

/-- The IFAC test of `inbound`: bit 7 of a nonempty wire. -/
def ifacFlagged (wire : Bytes) : Bool := wire ≠ [] ∧ wire.byteAt 0 &&& ifacFlagBit ≠ 0

/-- `bumped`: the hops byte counts the hop just taken and saturates at 255. -/
def bumpHops (wire : Bytes) : Bytes :=
  if wire.length ≥ 2 ∧ wire.byteAt 1 < 255 then wire.set 1 (wire.byteAt 1 + 1) else wire

/-- The packet `inbound` works on, when the wire is accepted. -/
def arriving (wire : Bytes) : Option Packet :=
  if ifacFlagged wire then none else (Packet.fromWireBytes (bumpHops wire)).toOption

namespace Transport
variable [CryptoLib]

def dispatch (t : Transport) (receivedOn : IfaceId) (packet : Packet) (nowMs : Nat) :
    Except Exn Transport :=
  match packet.packetType with
  | .announce => t.handleAnnounce receivedOn packet nowMs
  | .data =>
    if packet.destinationHash = pathRequestDestinationHash then
      t.handlePathRequest receivedOn packet
    else if packet.destinationType = .link then
      .ok (t.handleLinkDataForward receivedOn packet nowMs)
    else t.handleDataForward receivedOn packet nowMs
  | .linkRequest => t.handleLinkRequestForward receivedOn packet nowMs
  | .proof =>
    if packet.context = contextLrproof then .ok (t.handleLinkProofForward receivedOn packet nowMs)
    else .ok (t.handleProofForward receivedOn packet)

/-- `inbound`. Only `std::invalid_argument` is caught around the parse. -/
def inbound (t : Transport) (receivedOn : IfaceId) (wire : Bytes) (nowMs : Nat) :
    Except Exn Transport :=
  let t := t.count .inboundPackets
  if ifacFlagged wire then .ok (t.count .ifacUnsupportedDrops)
  else
    match Packet.fromWireBytes (bumpHops wire) with
    | .error (.invalidArgument _) => .ok (t.count .parseFailures)
    | .error e => .error e
    | .ok packet =>
      let (fresh, hashlist) := t.hashlist.insert (dedupHash packet)
      let t := { t with hashlist }
      if !fresh then .ok (t.count .dedupDrops) else t.dispatch receivedOn packet nowMs

omit [CryptoLib] in
def queueOn (t : Transport) (entry : AnnounceEntry) (i : IfaceId) : Transport :=
  let (accepted, iface) := (t.iface i).queueAnnounce entry.announceWire entry.announceHops
  { t with iface := fun j => if j = i then iface else t.iface j }.emit
    (.queueAnnounce i entry.announceWire entry.announceHops accepted)

omit [CryptoLib] in
def driveAnnounceRebroadcast (t : Transport) (nowMs : Nat) : Transport :=
  let (due, announceTable) := t.announceTable.popDue nowMs
  due.foldl
    (fun t entry => (t.interfaces.foldl (fun t i => t.queueOn entry i) t).count
      .announcesRebroadcast)
    { t with announceTable }

def uint64Max : Nat := 2 ^ 64 - 1

/-- The body of the loop of `drive_scheduled_announces` for one schedule. -/
def driveSchedule (nowMs : Nat) (s : ScheduledAnnounce) (t : Transport) :
    Except Exn (ScheduledAnnounce × Transport) :=
  if s.nextEmitMs > nowMs then .ok (s, t)
  else do
    let (appData, s) := match s.fn with
      | some fn => (fn s.fnCalls, { s with fnCalls := s.fnCalls + 1 })
      | none => ([], s)
    let (emitted, t) ← t.emitAnnounceForLocal s.destHash appData false none
    let t := if emitted then t.count .scheduledAnnouncesEmitted else t
    return ({ s with nextEmitMs := if s.periodMs > 0 then nowMs + s.periodMs else uint64Max }, t)

def driveSchedules (nowMs : Nat) : List ScheduledAnnounce → Transport →
    Except Exn (List ScheduledAnnounce × Transport)
  | [], t => .ok ([], t)
  | s :: rest, t => do
    let (s, t) ← driveSchedule nowMs s t
    let (rest, t) ← driveSchedules nowMs rest t
    return (s :: rest, t)

def driveScheduledAnnounces (t : Transport) (nowMs : Nat) : Except Exn Transport := do
  let (scheduledAnnounces, t) ← driveSchedules nowMs t.scheduledAnnounces t
  return { t with scheduledAnnounces }

omit [CryptoLib] in
def tickInterface (t : Transport) (i : IfaceId) (nowMs : Nat) : Transport :=
  let (iface, wires) := (t.iface i).tick nowMs
  { t with
    iface := fun j => if j = i then iface else t.iface j
    out := t.out ++ wires.map (.drained i) }

def tick (t : Transport) (nowMs : Nat) : Except Exn Transport := do
  let t := t.driveAnnounceRebroadcast nowMs
  let t ← t.driveScheduledAnnounces nowMs
  let t := t.interfaces.foldl (fun t i => t.tickInterface i nowMs) t
  return { t with
    paths := (t.paths.evictExpired nowMs).2
    reverseTable := (t.reverseTable.evictAged nowMs).2
    linkTable := ((t.linkTable.evictUnproven nowMs).2.evictStale nowMs linkStaleThresholdMs).2
    hashlist := t.hashlist.purgeIfOverCap.2
    prTags := t.prTags.purgeIfOverCap.2 }

end Transport

inductive Action where
  | inbound (receivedOn : IfaceId) (wire : Bytes) (nowMs : Nat)
  | tick (nowMs : Nat)
  | registerInterface (iface : IfaceId)
  | registerAnnounceHandler
  | registerLocalDestination (dest : Destination)
  | setAnnounceSeedFn (fn : Option (Nat → AnnounceSeed))
  | emitAnnounceForLocal (destHash appData : Bytes) (pathResponse : Bool) (onlyOn : Option IfaceId)
  | scheduleAnnounce (destHash : Bytes) (periodMs : Nat) (fn : Option (Nat → Bytes))
      (initialOffsetMs : Nat)
  | blackholeIdentity (identityHash : Bytes)
  | unblackholeIdentity (identityHash : Bytes)

namespace Transport
variable [CryptoLib]

def perform (t : Transport) : Action → Except Exn Transport
  | .inbound receivedOn wire nowMs => t.inbound receivedOn wire nowMs
  | .tick nowMs => t.tick nowMs
  | .registerInterface i => .ok { t with interfaces := t.interfaces ++ [i] }
  | .registerAnnounceHandler => .ok { t with announceHandlers := t.announceHandlers + 1 }
  | .registerLocalDestination dest => .ok { t with
      localDestinations := Dict.emplace (keyOf dest.destinationHash) dest t.localDestinations }
  | .setAnnounceSeedFn fn => .ok { t with announceSeedFn := fn, seedCalls := 0 }
  | .emitAnnounceForLocal destHash appData pathResponse onlyOn =>
    (t.emitAnnounceForLocal destHash appData pathResponse onlyOn).map Prod.snd
  | .scheduleAnnounce destHash periodMs fn initialOffsetMs => .ok { t with
      scheduledAnnounces := t.scheduledAnnounces ++
        [⟨destHash, periodMs, initialOffsetMs, fn, 0⟩] }
  | .blackholeIdentity h => .ok { t with blackholed := insert (keyOf h) t.blackholed }
  | .unblackholeIdentity h => .ok { t with blackholed := t.blackholed.erase (keyOf h) }

/-- One call, with `out` holding what this call did. -/
def step (t : Transport) (a : Action) : Except Exn Transport := { t with out := [] }.perform a

end Transport
end Reticulum
