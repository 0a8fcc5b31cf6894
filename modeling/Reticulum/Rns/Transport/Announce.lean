import Reticulum.Rns.Transport.Basic

/-! # Taking in and emitting announces (`handle_announce`, `emit_announce_for_local`) -/

namespace Reticulum

/-- `parse_random_blob_timestamp`: bytes 5 to 9, big-endian. -/
def parseRandomBlobTimestamp (blob : Bytes) : Nat :=
  if blob.length < 10 then 0
  else [5, 6, 7, 8, 9].foldl (fun ts i => (ts <<< 8) ||| (blob.byteAt i).toNat) 0

/-- The form in which a relay passes an announce on: HEADER_2 under its own transport id. -/
def relayedAnnounce (ourId : Bytes) (packet : Packet) : Except Exn Packet :=
  if packet.headerType = .header1 then packet.originatorToHeader2 ourId
  else packet.replaceTransportId ourId

/-- The `next_hop` of a path learned from `packet`. -/
def learnedNextHop (packet : Packet) : Bytes :=
  if packet.headerType = .header2 then packet.transportId else []

def replacesPath (existing : Option PathEntry) (newHops : UInt8) (randomHash : Bytes)
    (nowMs : Nat) : Bool :=
  match existing with
  | none => true
  | some e =>
    if newHops ≤ e.hops then true
    else if e.expiresMs ≤ nowMs then true
    else e.randomBlobs.all fun blob =>
      !decide (parseRandomBlobTimestamp randomHash ≤ parseRandomBlobTimestamp blob)

namespace Transport

/-- `cache_validated_announce`: whether the blob is new, and the node after it. -/
def cacheValidatedAnnounce (t : Transport) (va : ValidatedAnnounce) (receivedOn : IfaceId)
    (packet : Packet) (nowMs : Nat) : Except Exn (Bool × Transport) := do
  let t := { t with
    knownDestinations := t.knownDestinations.insert (keyOf va.destinationHash) va.publicKey }
  let existing := t.paths.get va.destinationHash
  let t ←
    if replacesPath existing packet.hops va.randomHash nowMs then do
      let toCache ← relayedAnnounce t.localIdentity.identityHash packet
      let e : PathEntry := {
        timestampMs := nowMs
        hops := packet.hops
        expiresMs := nowMs + 60 * 60 * 1000
        nextHop := learnedNextHop packet
        receivingInterface := some receivedOn
        announceWire := toCache.wireBytes
        randomBlobs := (existing.map PathEntry.randomBlobs).getD [] }
      let u : PathUpdate := {
        destinationHash := va.destinationHash
        hops := packet.hops
        nextHop := learnedNextHop packet
        isNew := existing.isNone }
      pure ({ t with paths := t.paths.put va.destinationHash e }.emit (.pathObserver u))
    else pure (t.count .pathReplacementRejected)
  let (blobIsNew, paths) := t.paths.noteRandomBlob va.destinationHash va.randomHash
  return (blobIsNew, { t with paths })

/-- The loop over `_announce_handlers`. -/
def deliverAnnounce (t : Transport) (va : ValidatedAnnounce) (receivedOn : IfaceId) : Transport :=
  (List.range t.announceHandlers).foldl
    (fun t _ => (t.emit (.announceHandler va receivedOn)).count .announcesDelivered) t

variable [CryptoLib]

def handleAnnounce (t : Transport) (receivedOn : IfaceId) (packet : Packet) (nowMs : Nat) :
    Except Exn Transport :=
  match Identity.validateAnnounce packet with
  | none => .ok (t.count .announceRejected)
  | some va =>
    let announcerIdHash := identityHashOf va.publicKey
    if announcerIdHash = t.localIdentity.identityHash then .ok (t.count .selfAnnounceDrops)
    else if t.isBlackholed announcerIdHash then .ok (t.count .blackholeDrops)
    else if (t.publicKeyFor va.destinationHash).any (· ≠ va.publicKey) then
      .ok (t.count .collisionsRejected)
    else do
      let t := t.count .announceValidated
      let (blobIsNew, t) ← t.cacheValidatedAnnounce va receivedOn packet nowMs
      let t ←
        if t.transportEnabled ∧ packet.context ≠ contextPathResponse ∧ blobIsNew then do
          let toForward ← relayedAnnounce t.localIdentity.identityHash packet
          let entry : AnnounceEntry := {
            destHash := va.destinationHash
            insertedMs := nowMs
            retransmitAtMs := nowMs
            retries := 0
            receivedFrom := some receivedOn
            announceHops := toForward.hops
            announceWire := toForward.wireBytes }
          pure ({ t with announceTable := t.announceTable.put entry }.count .announcesQueued)
        else pure t
      return t.deliverAnnounce va receivedOn

/-- `emit_announce_for_local`: whether it emitted, and the node after it. -/
def emitAnnounceForLocal (t : Transport) (destHash appData : Bytes) (pathResponse : Bool)
    (onlyOn : Option IfaceId) : Except Exn (Bool × Transport) :=
  match t.localDestinations.lookup (keyOf destHash) with
  | none => .ok (false, t)
  | some dest =>
    match t.announceSeedFn with
    | none => .ok (false, t)
    | some seedFn => do
      let seed := seedFn t.seedCalls
      let t := { t with seedCalls := t.seedCalls + 1 }
      let wire ← dest.buildAnnounce seed.randomPrefix seed.unixSeconds appData [] pathResponse
      let kind := if pathResponse then TxKind.pathResponse else TxKind.ownAnnounce
      match onlyOn with
      | some iface => return (true, t.transmitNow kind iface wire)
      | none => return (true, t.interfaces.foldl (fun t i => t.transmitNow kind i wire) t)

end Transport
end Reticulum
