import Reticulum.Rns.Identity

/-!
# Destinations (`rns/Destination`)

An identity with an app name. `buildAnnounce` produces the announce that `Identity.validateAnnounce`
accepts at the receiver.
-/

namespace Reticulum

structure Destination where
  identity : Identity
  appName : Bytes
  nameHash : Bytes
  destinationHash : Bytes
deriving DecidableEq

/-- `random_hash`: the prefix, then the low 40 bits of the timestamp, big-endian. -/
def announceRandomHash (randomPrefix : Bytes) (timestampSecs : Nat) : Bytes :=
  randomPrefix ++ [4, 3, 2, 1, 0].map fun i => UInt8.ofNat (timestampSecs >>> (i * 8))

theorem length_announceRandomHash {randomPrefix : Bytes} (h : randomPrefix.length = 5)
    (timestampSecs : Nat) : (announceRandomHash randomPrefix timestampSecs).length = 10 := by
  simp [announceRandomHash, h]

variable [CryptoLib]

namespace Destination

def new (identity : Identity) (appName : Bytes) : Except Exn Destination := do
  let destinationHash ← Identity.destinationHashFor appName identity.identityHash
  return { identity, appName, nameHash := Identity.nameHash appName, destinationHash }

def buildAnnounce (d : Destination) (randomPrefix : Bytes) (timestampSecs : Nat) (appData : Bytes)
    (ratchetPub : Bytes) (pathResponse : Bool) : Except Exn Bytes := do
  if randomPrefix.length ≠ 5 then
    throw (.invalidArgument "Destination::build_announce: random_prefix must be 5 bytes")
  if ratchetPub ≠ [] ∧ ratchetPub.length ≠ 32 then
    throw (.invalidArgument "Destination::build_announce: ratchet_pub must be 32 bytes or empty")
  if d.identity.privateKey.length ≠ privKeyLen then
    throw (.invalidArgument "Destination::build_announce: identity has no private key")
  let randomHash := announceRandomHash randomPrefix timestampSecs
  let signedData := d.destinationHash ++ d.identity.publicKey ++ d.nameHash ++ randomHash ++
    ratchetPub ++ appData
  let signature ← ed25519Sign (d.identity.privateKey.slice 32 32) signedData
  let body := d.identity.publicKey ++ d.nameHash ++ randomHash ++ ratchetPub ++ signature ++ appData
  let flags : UInt8 := if ratchetPub ≠ [] then 0x01 ||| 0x20 else 0x01
  let context := if pathResponse then contextPathResponse else contextNone
  Packet.packHeader1 flags 0 d.destinationHash context body

end Destination
end Reticulum
