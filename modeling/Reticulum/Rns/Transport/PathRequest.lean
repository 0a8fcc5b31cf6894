import Reticulum.Rns.Transport.Announce

/-! # Path requests (`handle_path_request`, `emit_path_response`) -/

namespace Reticulum

def pathRequestName : Bytes :=
  [114, 110, 115, 116, 114, 97, 110, 115, 112, 111, 114, 116, 46, 112, 97, 116, 104, 46, 114, 101,
    113, 117, 101, 115, 116]

def h2CtxOffset : Nat := 1 + 1 + 16 + 16

/-- `tag` of `handle_path_request`, at most 16 bytes, after the target or after the transport id. -/
def pathRequestTag (body : Bytes) : Bytes :=
  if body.length > 32 then body.slice 32 (min 16 (body.length - 32))
  else if body.length > 16 then body.slice 16 (min 16 (body.length - 16))
  else []

variable [CryptoLib]

def pathRequestDestinationHash : Bytes := (sha256 (Identity.nameHash pathRequestName)).slice 0 16

namespace Transport

omit [CryptoLib] in
def emitPathResponse (t : Transport) (out : IfaceId) (path : PathEntry) : Transport :=
  if path.announceWire.length ≤ h2CtxOffset then t
  else t.transmitNow .pathResponse out (path.announceWire.set h2CtxOffset contextPathResponse)

omit [CryptoLib] in
/-- Branch 4: the request goes out unchanged on every other interface. -/
def forwardPathRequest (t : Transport) (receivedOn : IfaceId) (packet : Packet) : Transport :=
  let others := t.interfaces.filter (· ≠ receivedOn)
  if others ≠ [] then
    (others.foldl (fun t i => t.transmitNow .pathRequestForward i packet.wireBytes) t).count
      .pathRequestsForwarded
  else t.count .pathRequestsUnanswered

def handlePathRequest (t : Transport) (receivedOn : IfaceId) (packet : Packet) :
    Except Exn Transport :=
  let body := packet.data
  if body.length < 16 then .ok t
  else
    let target := body.slice 0 16
    let tag := pathRequestTag body
    if tag.length = 0 then .ok (t.count .pathRequestsTagless)
    else
      let t := t.count .pathRequestsReceived
      let (fresh, prTags) := t.prTags.insert (target ++ tag)
      let t := { t with prTags }
      if !fresh then .ok (t.count .pathRequestsDeduped)
      else if t.isLocalDestination target then
        if t.announceSeedFn.isNone then .ok (t.count .pathRequestsLocalNoSeed)
        else do
          let (_, t) ← t.emitAnnounceForLocal target [] true (some receivedOn)
          return (t.count .pathRequestsLocalAnswered).count .pathRequestsAnswered
      else
        match t.paths.get target, t.transportEnabled with
        | some path, true => .ok ((t.emitPathResponse receivedOn path).count .pathRequestsAnswered)
        | none, true => .ok (t.forwardPathRequest receivedOn packet)
        | _, false => .ok (t.count .pathRequestsUnanswered)

end Transport
end Reticulum
