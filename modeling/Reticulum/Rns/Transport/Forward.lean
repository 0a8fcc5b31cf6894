import Reticulum.Rns.Transport.Basic

/-! # Forwarding DATA, proofs and link traffic -/

namespace Reticulum

structure RelayForward where
  outboundIf : IfaceId
  wire : Bytes
deriving DecidableEq

def computeRelayForward (packet : Packet) (path : PathEntry) : Except Exn (Option RelayForward) :=
  match path.receivingInterface with
  | none => .ok none
  | some outboundIf =>
    if path.hops > 1 then
      if path.nextHop.length ≠ transportIdLen then .ok none
      else do
        let forwarded ← packet.replaceTransportId path.nextHop
        return some ⟨outboundIf, forwarded.wireBytes⟩
    else if path.hops = 1 then do
      let forwarded ← packet.stripTransportIdToHeader1
      return some ⟨outboundIf, forwarded.wireBytes⟩
    else .ok none

def linkMtuSize : Nat := 3
def ecPubSize : Nat := 64

/-- The 24 bits at `off`. -/
def signallingAt (wire : Bytes) (off : Nat) : Nat :=
  ((wire.byteAt off).toNat <<< 16) ||| ((wire.byteAt (off + 1)).toNat <<< 8) |||
    (wire.byteAt (off + 2)).toNat

def maybeClampLrSignalling (wire : Bytes) (hwMtuBytes : Nat) : Bytes :=
  match Packet.fromWireBytes wire with
  | .error _ => wire
  | .ok parsed =>
    if parsed.data.length ≠ ecPubSize + linkMtuSize then wire
    else
      let off := wire.length - linkMtuSize
      let signalledMtu := signallingAt wire off &&& 0x1FFFFF
      if signalledMtu ≤ hwMtuBytes then wire
      else
        let modeBits := wire.byteAt off &&& 0xE0
        let clamped := hwMtuBytes &&& 0x1FFFFF
        ((wire.set off (modeBits ||| UInt8.ofNat ((clamped >>> 16) &&& 0x1F))).set (off + 1)
          (UInt8.ofNat ((clamped >>> 8) &&& 0xFF))).set (off + 2) (UInt8.ofNat (clamped &&& 0xFF))

variable [CryptoLib]

def dedupHash (p : Packet) : Bytes := sha256 p.hashablePart

/-- The truncated hash that keys the reverse table and addresses proofs. -/
def proofHash (p : Packet) : Bytes := (dedupHash p).slice 0 16

theorem length_proofHash (p : Packet) : (proofHash p).length = destHashLen :=
  Bytes.length_slice_of_le (by simp [dedupHash])

def linkIdFromLrPacket (packet : Packet) : Bytes :=
  let hp := packet.hashablePart
  let hp := if packet.data.length > ecPubSize ∧ hp.length ≥ 3 then hp.take (hp.length - 3) else hp
  (sha256 hp).slice 0 16

namespace Transport

def handleDataForward (t : Transport) (receivedOn : IfaceId) (packet : Packet) (nowMs : Nat) :
    Except Exn Transport :=
  let t := t.count .dataInbound
  if packet.headerType ≠ .header2 then .ok t
  else if packet.transportId ≠ t.localIdentity.identityHash then .ok t
  else
    match t.paths.get packet.destinationHash with
    | none => .ok t
    | some path =>
      if path.hops = 0 then .ok (t.count .dataLocalArrived)
      else do
        match ← computeRelayForward packet path with
        | none => return t
        | some fwd =>
          let t := t.transmitNow .dataForward fwd.outboundIf fwd.wire
          let t := t.count (if path.hops > 1 then .dataForwardedHeader2 else .dataForwardedHeader1)
          return { t with reverseTable := t.reverseTable.put {
            packetHash := proofHash packet
            receivedIf := some receivedOn
            outboundIf := some fwd.outboundIf
            timestampMs := nowMs } }

def handleProofForward (t : Transport) (receivedOn : IfaceId) (packet : Packet) : Transport :=
  let t := t.count .proofInbound
  match t.reverseTable.get packet.destinationHash with
  | none => t.count .proofOrphaned
  | some entry =>
    if entry.outboundIf ≠ some receivedOn then t.count .proofWrongInterface
    else
      let t := { t with reverseTable := (t.reverseTable.pop packet.destinationHash).2 }
      match entry.receivedIf with
      | none => t
      | some fwd => (t.transmitNow .proofForward fwd packet.wireBytes).count .proofForwarded

def handleLinkRequestForward (t : Transport) (receivedOn : IfaceId) (packet : Packet)
    (nowMs : Nat) : Except Exn Transport :=
  if packet.headerType ≠ .header2 then .ok t
  else if packet.transportId ≠ t.localIdentity.identityHash then .ok t
  else
    match t.paths.get packet.destinationHash with
    | none => .ok t
    | some path =>
      if path.hops = 0 then .ok t
      else do
        match ← computeRelayForward packet path with
        | none => return t
        | some fwd =>
          let wire := maybeClampLrSignalling fwd.wire (t.iface fwd.outboundIf).hwMtuBytes
          let t := t.transmitNow .linkForward fwd.outboundIf wire
          let entry : LinkEntry := {
            linkId := linkIdFromLrPacket packet
            timestampMs := nowMs
            nextHopId := path.nextHop
            nhIf := some fwd.outboundIf
            remHops := if path.hops > 0 then path.hops - 1 else 0
            rcvdIf := some receivedOn
            takenHops := packet.hops
            dstHash := packet.destinationHash
            validated := false
            proofTimeoutMs := nowMs + 60 * 1000
            lastActivityMs := nowMs }
          return { t with linkTable := t.linkTable.put entry }.count .linkRequestsForwarded

def lrproofSignedData (linkId responderXPub responderEdPub signalling : Bytes) : Bytes :=
  linkId ++ responderXPub ++ responderEdPub ++ signalling

/-- The body checks of `handle_link_proof_forward`: size, known responder, signature. -/
def lrproofVerifies (t : Transport) (entry : LinkEntry) (packet : Packet) : Bool :=
  let body := packet.data
  if body.length ≠ 96 ∧ body.length ≠ 99 then false
  else
    let signature := body.slice 0 64
    let responderXPub := body.slice 64 32
    let signalling := if body.length = 99 then body.slice 96 3 else []
    match t.publicKeyFor entry.dstHash with
    | none => false
    | some responderPub =>
      if responderPub.length ≠ pubKeyLen then false
      else
        let responderEdPub := responderPub.slice 32 32
        ed25519Verify responderEdPub signature
          (lrproofSignedData packet.destinationHash responderXPub responderEdPub signalling)

def handleLinkProofForward (t : Transport) (receivedOn : IfaceId) (packet : Packet)
    (nowMs : Nat) : Transport :=
  match t.linkTable.get packet.destinationHash with
  | none => t.count .linkProofsUnknownLink
  | some entry =>
    if entry.nhIf ≠ some receivedOn then t.count .linkProofsWrongIface
    else if !t.lrproofVerifies entry packet then t.count .linkProofsInvalid
    else
      match entry.rcvdIf with
      | none => t.count .linkProofsInvalid
      | some fwd =>
        let t := (t.transmitNow .linkForward fwd packet.wireBytes).count .linkProofsForwarded
        { t with linkTable := t.linkTable.getMut packet.destinationHash fun e =>
            { e with validated := true, lastActivityMs := nowMs } }

/-- `fwd` of `handle_link_data_forward`: the interface opposite to the one the packet came in on. -/
def oppositeIf (entry : LinkEntry) (receivedOn : IfaceId) : Option IfaceId :=
  if some receivedOn = entry.rcvdIf then entry.nhIf
  else if some receivedOn = entry.nhIf then entry.rcvdIf
  else none

def handleLinkDataForward (t : Transport) (receivedOn : IfaceId) (packet : Packet)
    (nowMs : Nat) : Transport :=
  match t.linkTable.get packet.destinationHash with
  | none => t.count .linkDataUnknownLink
  | some entry =>
    if !entry.validated then t.count .linkDataUnvalidated
    else
      match oppositeIf entry receivedOn with
      | none => t
      | some fwd =>
        let t := (t.transmitNow .linkForward fwd packet.wireBytes).count .linkDataForwarded
        let t := { t with linkTable := t.linkTable.getMut packet.destinationHash fun e =>
          { e with lastActivityMs := nowMs } }
        if packet.context = contextLinkclose then
          { t with linkTable := (t.linkTable.remove packet.destinationHash).2 }.count
            .linkCloseObserved
        else t

end Transport
end Reticulum
