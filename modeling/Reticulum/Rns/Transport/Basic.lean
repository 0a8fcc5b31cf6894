import Reticulum.Rns.Destination
import Reticulum.Rns.Interface
import Reticulum.Rns.Tables.AnnounceTable
import Reticulum.Rns.Tables.LinkTable
import Reticulum.Rns.Tables.PacketHashList
import Reticulum.Rns.Tables.PathTable
import Reticulum.Rns.Tables.ReverseTable

/-!
# The state of `rns/Transport`

`Transport` collects the members of the class, the `Interface` objects its pointers name, and `out`:
what the current call has handed to interfaces and callbacks, oldest first. Callbacks that return a
value (the announce seed, the app-data providers) are given by the stream of their results.
-/

namespace Reticulum

inductive TxKind where
  | ownAnnounce | pathResponse | rebroadcast | dataForward | proofForward | linkForward
  | pathRequestForward
deriving DecidableEq, Repr

structure AnnounceSeed where
  randomPrefix : Bytes
  unixSeconds : Nat
deriving DecidableEq

structure PathUpdate where
  destinationHash : Bytes
  hops : UInt8
  nextHop : Bytes
  isNew : Bool
deriving DecidableEq

/-- `ScheduledAnnounce`; `fnCalls` counts the calls of `fn` so far. -/
structure ScheduledAnnounce where
  destHash : Bytes
  periodMs : Nat
  nextEmitMs : Nat
  fn : Option (Nat → Bytes)
  fnCalls : Nat

/-- What a call of the API does to the outside. -/
inductive Event where
  /-- The tx observer's `kind`, then `transmit_now(wire)`. -/
  | transmit (kind : TxKind) (iface : IfaceId) (wire : Bytes)
  /-- The tx observer's `Rebroadcast`, then `queue_announce(wire, hops)` with its result. -/
  | queueAnnounce (iface : IfaceId) (wire : Bytes) (hops : UInt8) (accepted : Bool)
  /-- A queued announce that the interface's own `tick` put on the air. -/
  | drained (iface : IfaceId) (wire : Bytes)
  | announceHandler (va : ValidatedAnnounce) (receivedOn : IfaceId)
  | pathObserver (u : PathUpdate)
deriving DecidableEq

/-- The bytes an event puts on an interface's medium. -/
def Event.onAir : Event → Option (IfaceId × Bytes)
  | .transmit _ iface wire => some (iface, wire)
  | .drained iface wire => some (iface, wire)
  | _ => none

inductive Counter where
  | inboundPackets | parseFailures | ifacUnsupportedDrops | dedupDrops | selfAnnounceDrops
  | announceValidated | announceRejected | collisionsRejected | announcesDelivered
  | announcesQueued | announcesRebroadcast | dataInbound | dataForwardedHeader2
  | dataForwardedHeader1 | dataLocalArrived | proofInbound | proofForwarded | proofOrphaned
  | proofWrongInterface | pathRequestsReceived | pathRequestsTagless | pathRequestsDeduped
  | pathRequestsAnswered | pathRequestsForwarded | pathRequestsUnanswered | linkRequestsForwarded
  | linkProofsForwarded | linkProofsInvalid | linkProofsUnknownLink | linkProofsWrongIface
  | linkDataForwarded | linkDataUnknownLink | linkDataUnvalidated | linkCloseObserved
  | pathRequestsLocalAnswered | pathRequestsLocalNoSeed | scheduledAnnouncesEmitted
  | pathReplacementRejected | blackholeDrops
deriving DecidableEq, Repr

structure Transport where
  localIdentity : Identity
  transportEnabled : Bool
  paths : PathTable
  hashlist : PacketHashList
  announceTable : AnnounceTable
  reverseTable : ReverseTable
  linkTable : LinkTable
  prTags : PacketHashList
  knownDestinations : Dict HexString Bytes
  localDestinations : Dict HexString Destination
  blackholed : Finset HexString
  interfaces : List IfaceId
  announceHandlers : Nat
  announceSeedFn : Option (Nat → AnnounceSeed)
  seedCalls : Nat
  scheduledAnnounces : List ScheduledAnnounce
  stats : Counter → Nat
  iface : IfaceId → Interface
  out : List Event

namespace Transport

def maxPrTags : Nat := 32000

def linkStaleThresholdMs : Nat := 10 * 60 * 1000

/-- The constructor, beside freshly constructed interfaces. -/
def new (localIdentity : Identity) (transportEnabled : Bool) (cfg : IfaceId → Interface.Config) :
    Transport where
  localIdentity
  transportEnabled
  paths := .empty
  hashlist := .new PacketHashList.defaultMaxSize
  announceTable := .empty
  reverseTable := .empty
  linkTable := .empty
  prTags := .new maxPrTags
  knownDestinations := ∅
  localDestinations := ∅
  blackholed := ∅
  interfaces := []
  announceHandlers := 0
  announceSeedFn := none
  seedCalls := 0
  scheduledAnnounces := []
  stats := fun _ => 0
  iface := fun i => .new (cfg i)
  out := []

def count (t : Transport) (c : Counter) : Transport :=
  { t with stats := fun c' => if c' = c then t.stats c + 1 else t.stats c' }

def emit (t : Transport) (e : Event) : Transport := { t with out := t.out ++ [e] }

def transmitNow (t : Transport) (kind : TxKind) (iface : IfaceId) (wire : Bytes) : Transport :=
  t.emit (.transmit kind iface wire)

/-- The bytes the call put on the air, in order. -/
def transmissions (t : Transport) : List (IfaceId × Bytes) := t.out.filterMap Event.onAir

def publicKeyFor (t : Transport) (destHash : Bytes) : Option Bytes :=
  t.knownDestinations.lookup (keyOf destHash)

def isLocalDestination (t : Transport) (destHash : Bytes) : Bool :=
  (t.localDestinations.lookup (keyOf destHash)).isSome

def isBlackholed (t : Transport) (identityHash : Bytes) : Bool := keyOf identityHash ∈ t.blackholed

end Transport
end Reticulum
