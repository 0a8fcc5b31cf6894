import Reticulum.Rns.Crypto
import Reticulum.Rns.Packet

/-!
# Identities and announce validation (`rns/Identity`, `parse_announce_body`)

The constructor of `Identity` is private, so the key and hash lengths its two factories establish
are class invariants; the structure carries them.
-/

namespace Reticulum

def privKeyLen : Nat := 64
def pubKeyLen : Nat := 64
def identityHashLen : Nat := 16
def nameHashLen : Nat := 10

/-- A key pair, or a public key alone (`privateKey = []`), with its identity hash. -/
structure Identity where
  privateKey : Bytes
  publicKey : Bytes
  identityHash : Bytes
  privateKey_length : privateKey = [] ∨ privateKey.length = privKeyLen
  publicKey_length : publicKey.length = pubKeyLen
  identityHash_length : identityHash.length = identityHashLen
deriving DecidableEq

structure AnnounceBody where
  publicKey : Bytes
  nameHash : Bytes
  randomHash : Bytes
  ratchetPub : Bytes
  signature : Bytes
  appData : Bytes
deriving DecidableEq

/-- `fixed_len` of `parse_announce_body`. -/
def announceFixedLen (contextFlag : Bool) : Nat :=
  64 + 10 + 10 + (if contextFlag then 32 else 0) + 64

def parseAnnounceBody (body : Bytes) (contextFlag : Bool) : Except Exn AnnounceBody :=
  if body.length < announceFixedLen contextFlag then
    .error (.invalidArgument "parse_announce_body: body shorter than fixed-length fields")
  else
    let off := 84 + if contextFlag then 32 else 0
    .ok {
      publicKey := body.slice 0 64
      nameHash := body.slice 64 10
      randomHash := body.slice 74 10
      ratchetPub := if contextFlag then body.slice 84 32 else []
      signature := body.slice off 64
      appData := body.sliceFrom (off + 64) }

/-- An announce that passed the cryptographic checks. -/
structure ValidatedAnnounce where
  destinationHash : Bytes
  publicKey : Bytes
  nameHash : Bytes
  randomHash : Bytes
  ratchetPub : Bytes
  appData : Bytes
  isPathResponse : Bool
deriving DecidableEq

/-- What an announce signs: the outer destination hash, then every body field but the signature. -/
def announceSignedData (destHash : Bytes) (b : AnnounceBody) : Bytes :=
  destHash ++ b.publicKey ++ b.nameHash ++ b.randomHash ++ b.ratchetPub ++ b.appData

variable [CryptoLib]

/-- `SHA256(public_key)[:16]`. -/
def identityHashOf (publicKey : Bytes) : Bytes := (sha256 publicKey).slice 0 identityHashLen

theorem length_identityHashOf (publicKey : Bytes) :
    (identityHashOf publicKey).length = identityHashLen :=
  Bytes.length_slice_of_le (by simp [identityHashLen])

namespace Identity

def fromPrivateBytes (priv : Bytes) : Except Exn Identity :=
  if h : priv.length ≠ privKeyLen then
    .error (.invalidArgument "Identity::from_private_bytes: priv must be 64 bytes")
  else
    match hx : x25519PublicFromPrivate (priv.slice 0 32) with
    | .error e => .error e
    | .ok xPub =>
      match he : ed25519PublicFromPrivate (priv.slice 32 32) with
      | .error e => .error e
      | .ok ePub =>
        .ok {
          privateKey := priv
          publicKey := xPub ++ ePub
          identityHash := identityHashOf (xPub ++ ePub)
          privateKey_length := .inr (not_not.mp h)
          publicKey_length := by
            rw [List.length_append, length_of_x25519PublicFromPrivate hx,
              length_of_ed25519PublicFromPrivate he]; rfl
          identityHash_length := length_identityHashOf _ }

def nameHash (fullName : Bytes) : Bytes := (sha256 fullName).slice 0 nameHashLen

theorem length_nameHash (fullName : Bytes) : (nameHash fullName).length = nameHashLen :=
  Bytes.length_slice_of_le (by simp [nameHashLen])

/-- `SHA256(name_hash || identity_hash)[:16]`. -/
def destHashOf (nameHash identityHash : Bytes) : Bytes :=
  (sha256 (nameHash ++ identityHash)).slice 0 destHashLen

def destinationHashFor (fullName identityHash : Bytes) : Except Exn Bytes :=
  if identityHash.length ≠ identityHashLen then
    .error (.invalidArgument "destination_hash_for: identity_hash must be 16 bytes")
  else .ok (destHashOf (nameHash fullName) identityHash)

def validateAnnounce (packet : Packet) : Option ValidatedAnnounce :=
  if packet.packetType ≠ .announce then none
  else if packet.destinationType ≠ .single then none
  else
    match parseAnnounceBody packet.data packet.contextFlag with
    | .error _ => none
    | .ok body =>
      let signedData := announceSignedData packet.destinationHash body
      let edPub := body.publicKey.slice 32 32
      if !ed25519Verify edPub body.signature signedData then none
      else if destHashOf body.nameHash (identityHashOf body.publicKey) ≠ packet.destinationHash then
        none
      else some {
        destinationHash := packet.destinationHash
        publicKey := body.publicKey
        nameHash := body.nameHash
        randomHash := body.randomHash
        ratchetPub := body.ratchetPub
        appData := body.appData
        isPathResponse := packet.context == contextPathResponse }

end Identity
end Reticulum
