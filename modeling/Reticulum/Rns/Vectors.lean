import Reticulum.Lib.Sha256
import Reticulum.Rns.Destination
import Reticulum.Rns.Transport.Step

/-!
# The test vectors

Alice, the relays Bob and Carol, and the packets the unit tests of `Transport` are built on, with a
`CryptoLib` that computes SHA-256 and knows the keys and signatures involved. They are what the runs
on concrete packets in the modules below are made of.
-/

namespace Reticulum.Vectors

def bytes (len x : Nat) : Bytes :=
  match len with
  | 0 => []
  | n + 1 => UInt8.ofNat (x / 256 ^ n % 256) :: bytes n x

theorem length_bytes (len x : Nat) : (bytes len x).length = len := by
  induction len with
  | zero => rfl
  | succ n ih => simp [bytes, ih]

def vec (len x : Nat) : Vector UInt8 len := ⟨(bytes len x).toArray, by simp [length_bytes]⟩

/-! ### Keys and signatures -/

def alicePriv : Bytes :=
  bytes 32 0x587e730a70d24e971efa8c146e554996d70bff45b2033d336e2c078dc63d3645 ++
  bytes 32 0xbef79d95bf6b253827a2e7e81a13ab0b10a908fd158581d1827095b788169e93

def bobPriv : Bytes :=
  bytes 32 0x0f453e75d564532f2fa671aea79e9a714e4564e1ff833d1df19986fe8a36aa21 ++
  bytes 32 0x9a6acdad966af7d006cfd393ca8278c608978bcaefa5b5f24db867179f83a863

def carolPriv : Bytes :=
  bytes 32 0x202122232425262728292a2b2c2d2e2f303132333435363738393a3b3c3d3e3f ++
  bytes 32 0x404142434445464748494a4b4c4d4e4f505152535455565758595a5b5c5d5e5f

def alicePub : Bytes :=
  bytes 32 0x76fce269b2356a51b6a832a1a25099155acb20733b453f9538aaa8069e854d5a ++
  bytes 32 0x780708b44424373474ee1607c3f2b4a1cd5643de508e106e6b8cf4a10f00ec7c

def bobPub : Bytes :=
  bytes 32 0x92331490ac7c5db96102f80ffc64d71330907a5aea969b8617b7b2f3e0f8352a ++
  bytes 32 0x274e3172cbb18bdb14ccc1178fd66a8a811be97690d30985c75649a2b07dc76a

def carolPub : Bytes :=
  bytes 32 0x358072d6365880d1aeea329adf9121383851ed21a28e3b75e965d0d2cd166254 ++
  bytes 32 0x2543b92ff1095511476adc8369db6ddc933665a11978dda1404ee1066ca9559d

def halves (r s : Nat) : Vector UInt8 64 :=
  ⟨(bytes 32 r ++ bytes 32 s).toArray, by simp [length_bytes]⟩

/-- Ed25519 private keys (second halves) with their public keys. -/
def ed25519Keys : List (Bytes × Vector UInt8 32) := [
  (bytes 32 0xbef79d95bf6b253827a2e7e81a13ab0b10a908fd158581d1827095b788169e93,
    vec 32 0x780708b44424373474ee1607c3f2b4a1cd5643de508e106e6b8cf4a10f00ec7c),
  (bytes 32 0x9a6acdad966af7d006cfd393ca8278c608978bcaefa5b5f24db867179f83a863,
    vec 32 0x274e3172cbb18bdb14ccc1178fd66a8a811be97690d30985c75649a2b07dc76a),
  (bytes 32 0x404142434445464748494a4b4c4d4e4f505152535455565758595a5b5c5d5e5f,
    vec 32 0x2543b92ff1095511476adc8369db6ddc933665a11978dda1404ee1066ca9559d)]

/-- Clamped X25519 scalars with their public keys. -/
def x25519Keys : List (Bytes × Vector UInt8 32) := [
  (bytes 32 0x587e730a70d24e971efa8c146e554996d70bff45b2033d336e2c078dc63d3645,
    vec 32 0x76fce269b2356a51b6a832a1a25099155acb20733b453f9538aaa8069e854d5a),
  (bytes 32 0x08453e75d564532f2fa671aea79e9a714e4564e1ff833d1df19986fe8a36aa61,
    vec 32 0x92331490ac7c5db96102f80ffc64d71330907a5aea969b8617b7b2f3e0f8352a),
  (bytes 32 0x202122232425262728292a2b2c2d2e2f303132333435363738393a3b3c3d3e7f,
    vec 32 0x358072d6365880d1aeea329adf9121383851ed21a28e3b75e965d0d2cd166254)]

/-- Signatures, by the digest of the public key and the message. -/
def signatures : List (Bytes × Vector UInt8 64) := [
  -- The announce of the vectors.
  (bytes 32 0x842d1fb568d253d4101f7ccec33fa060940aa604560846e71a694fdf2b0d2f89,
    halves 0x9b0f121c51fda21cbce043b5b9d89b09817f29d320d2027c0f6c67144ace9d57
      0x7722791e9ca1c5d24678ced4166862d77650756a98369c48a8455865c279e200),
  -- The LRPROOF below.
  (bytes 32 0x6017b2dd325a639a64bd1f01af24508ddd3c9554b3c40f254e526c081531587d,
    halves 0x92c650dec78b2e210140685e07ce591e4cd776d4dfdec3411b05189e469ca778
      0x34fc8596b5dc3e25ad3caf484a69c1e7063f1f51c1611561cb19376d84edfe00)]

/-- The signature of `msg` under `pub`. Off the table it is a digest, which still verifies as
signed and for nothing else. -/
def signature (pub msg : Bytes) : Vector UInt8 64 :=
  let digest := Sha256.hash (pub ++ msg)
  (signatures.lookup digest.toList).getD (digest ++ digest)

@[reducible] def lib : CryptoLib where
  sha256 := Sha256.hash
  derivePublicKey priv := (ed25519Keys.lookup priv).getD (Sha256.hash priv)
  sign _ pub msg := signature pub msg
  verify sig pub msg := sig = (signature pub msg).toList
  eval scalar point := (x25519Keys.lookup scalar).getD (Sha256.hash (scalar ++ point))

attribute [local instance] lib

def alice : Identity where
  privateKey := alicePriv
  publicKey := alicePub
  identityHash := bytes 16 0x28d43a11abc1094301a59ed3b44f127b
  privateKey_length := .inr (by decide)
  publicKey_length := by decide
  identityHash_length := by decide

def bob : Identity where
  privateKey := bobPriv
  publicKey := bobPub
  identityHash := bytes 16 0xc090410e5b5bf8956194c1872dccec3b
  privateKey_length := .inr (by decide)
  publicKey_length := by decide
  identityHash_length := by decide

def carol : Identity where
  privateKey := carolPriv
  publicKey := carolPub
  identityHash := bytes 16 0x364e04314df012643a216cd61163c685
  privateKey_length := .inr (by decide)
  publicKey_length := by decide
  identityHash_length := by decide

example : Identity.fromPrivateBytes alicePriv = .ok alice := by decide +kernel

example : Identity.fromPrivateBytes bobPriv = .ok bob := by decide +kernel

example : Identity.fromPrivateBytes carolPriv = .ok carol := by decide +kernel

/-! ### Packets -/

def aliceDest : Bytes := bytes 16 0xd9587f0be518490591c181755404d851

def aliceAnnounce : Bytes :=
  bytes 32 0x0100d9587f0be518490591c181755404d8510076fce269b2356a51b6a832a1a2 ++
  bytes 32 0x5099155acb20733b453f9538aaa8069e854d5a780708b44424373474ee1607c3 ++
  bytes 32 0xf2b4a1cd5643de508e106e6b8cf4a10f00ec7c8b5739ff0fe7afaf7157a1a2a3 ++
  bytes 32 0xa4a5006553f1009b0f121c51fda21cbce043b5b9d89b09817f29d320d2027c0f ++
  bytes 32 0x6c67144ace9d577722791e9ca1c5d24678ced4166862d77650756a98369c48a8 ++
  bytes 20 0x455865c279e20092c409416c6963655465737400

/-- A link request to Alice through Bob, without signalling. -/
def linkRequest : Bytes :=
  [0x52, 0] ++ bob.identityHash ++ aliceDest ++ [contextNone] ++ List.replicate 64 0

def linkId : Bytes := bytes 16 0x2ceedd2ee2de2741382ec73d7100fa4d

/-- Alice's proof of that link. -/
def lrproof : Bytes :=
  [0x0F, 0] ++ linkId ++ [contextLrproof] ++
  (halves 0x92c650dec78b2e210140685e07ce591e4cd776d4dfdec3411b05189e469ca778
    0x34fc8596b5dc3e25ad3caf484a69c1e7063f1f51c1611561cb19376d84edfe00).toList ++
  List.replicate 32 0x11

/-- A keepalive from the initiator of that link. -/
def keepalive : Bytes := [0x0C, 0] ++ linkId ++ [contextKeepalive, 0xFF]

def keepalivePacket : Packet :=
  .ofFields 0x0C 1 [] linkId contextKeepalive [0xFF] (by decide) (by decide) (by decide)

theorem arriving_keepalive : arriving keepalive = some keepalivePacket := by decide +kernel

theorem linkId_ne_pathRequest : linkId ≠ pathRequestDestinationHash := by decide +kernel

theorem aliceDest_ne_pathRequest : aliceDest ≠ pathRequestDestinationHash := by decide +kernel

def otherRelay : Bytes := bytes 16 0xaabbccddeeff00112233445566778899

/-- DATA for Alice through the relay `transportId`. -/
def dataVia (transportId : Bytes) : Bytes :=
  [0x50, 0] ++ transportId ++ aliceDest ++ [contextNone, 0xDE, 0xAD, 0xBE, 0xEF]

def dataPacket (transportId : Bytes) (h : transportId.length = transportIdLen) : Packet :=
  .ofFields 0x50 1 transportId aliceDest contextNone [0xDE, 0xAD, 0xBE, 0xEF] (by decide) h
    (by decide)

theorem arriving_dataVia_other :
    arriving (dataVia otherRelay) = some (dataPacket otherRelay rfl) := by decide +kernel

theorem arriving_dataVia_bob :
    arriving (dataVia bob.identityHash) = some (dataPacket bob.identityHash rfl) := by
  decide +kernel

/-- Alice's proof of the DATA packet of the vectors. -/
def dataReceipt : Bytes :=
  [0x03, 0] ++ proofHash (dataPacket bob.identityHash rfl) ++ [contextNone] ++ List.replicate 64 0

def dataReceiptPacket : Packet :=
  .ofFields 0x03 1 [] (proofHash (dataPacket bob.identityHash rfl)) contextNone
    (List.replicate 64 0) (by decide) (by decide) (length_proofHash _)

/-- A proof of a packet sent over the link, from the responder's side. -/
def linkReceipt : Bytes := [0x0F, 0] ++ linkId ++ [contextNone] ++ List.replicate 96 0

def linkReceiptPacket : Packet :=
  .ofFields 0x0F 1 [] linkId contextNone (List.replicate 96 0) (by decide) (by decide) (by decide)

def aliceDestination : Destination where
  identity := alice
  appName := bytes 33 0x766563746f72732e616c6963655f616e6e6f756e63655f6e6f5f72617463686574
  nameHash := bytes 10 0x8b5739ff0fe7afaf7157
  destinationHash := aliceDest

def aliceAnnouncePacket : Packet :=
  .ofFields 0x01 0 [] aliceDest contextNone (aliceAnnounce.drop 19) (by decide) (by decide)
    (by decide)

/-- An announce of Alice's at a given time, with `hops` counted already. -/
def aliceAnnounceAt (seconds : Nat) (hops : UInt8) : Bytes :=
  ((aliceDestination.buildAnnounce (bytes 5 0) seconds [] [] false).toOption.getD []).set 1 hops

/-- The announce of the vectors with another context byte, and with `hops` counted already. -/
def aliceReplay (hops : UInt8) : Bytes := (aliceAnnounce.set 18 0x05).set 1 hops

/-- The announce as Bob passes it on. -/
def bobAnnouncePacket : Packet :=
  .ofFields 0x51 1 bob.identityHash aliceDest contextNone (aliceAnnounce.drop 19) (by decide)
    (by decide) (by decide)

/-- DATA for Alice through the relay `transportId`, as it is sent. -/
def sentData (transportId : Bytes) (h : transportId.length = transportIdLen) : Packet :=
  .ofFields 0x50 0 transportId aliceDest contextNone [0xDE, 0xAD, 0xBE, 0xEF] (by decide) h
    (by decide)

def receiptFor (p : Packet) (context : UInt8) : Packet :=
  .ofFields 0x03 0 [] (proofHash p) context (List.replicate 64 0) (by decide) (by decide)
    (length_proofHash _)

/-- DATA for Alice through Bob, as Alice gets it. -/
def receivedData : Packet :=
  .ofFields 0x00 1 [] aliceDest contextNone [0xDE, 0xAD, 0xBE, 0xEF] (by decide) (by decide)
    (by decide)

/-- DATA for Alice through Carol and Bob, as it is sent. -/
def dataForAlice : Packet := sentData carol.identityHash rfl

/-- The same as Carol sends it on. -/
def carolsCopy : Packet := dataPacket bob.identityHash rfl

/-- The same as Bob sends it on. -/
def bobsCopy : Packet :=
  .ofFields 0x00 2 [] aliceDest contextNone [0xDE, 0xAD, 0xBE, 0xEF] (by decide) (by decide)
    (by decide)

/-- A path request for Alice, with a tag. -/
def aliceQuery : Bytes :=
  [0x08, 0] ++ pathRequestDestinationHash ++ [contextNone] ++ aliceDest ++ List.replicate 16 7

def requestPacket : Packet :=
  .ofFields 0x52 0 bob.identityHash aliceDest contextNone (List.replicate 64 0) (by decide)
    (by decide) (by decide)

/-- Alice's signature in the LRPROOF of the vectors. -/
def proofSignature : Bytes :=
  (halves 0x92c650dec78b2e210140685e07ce591e4cd776d4dfdec3411b05189e469ca778
    0x34fc8596b5dc3e25ad3caf484a69c1e7063f1f51c1611561cb19376d84edfe00).toList

def lrproofPacket : Packet :=
  .ofFields 0x0F 0 [] linkId contextLrproof (proofSignature ++ (List.replicate 32 0x11 ++ []))
    (by decide) (by decide) (by decide)

/-! ### A relay -/

/-- Interfaces as the unit tests configure them. -/
def cfg : Interface.Config where
  bitrateBps := 1000000
  windowCapMs := 1000
  maxQueuedAnnounces := 32
  airtimeWindowMs := 1000
  hwMtuBytes := 0xFFFFFFFF

/-- Bob, relaying between the interfaces 0 and 1. -/
def relay : Transport := .new bob true fun _ => cfg

/-- Alice is heard on interface 1. -/
def heardAlice : List Action :=
  [.registerInterface 0, .registerInterface 1, .inbound 1 aliceAnnounce 1000]

/-- A link to Alice is requested from interface 0 and proven. -/
def linkUp : List Action :=
  heardAlice ++ [.inbound 0 linkRequest 2000, .inbound 1 lrproof 3000]

/-- Bob's entry for that link, last active at `now`. -/
def linkEntry (now : Nat) : LinkEntry where
  linkId := linkId
  timestampMs := 2000
  nextHopId := []
  nhIf := some 1
  remHops := 0
  rcvdIf := some 0
  takenHops := 1
  dstHash := aliceDest
  validated := true
  proofTimeoutMs := 62000
  lastActivityMs := now

end Reticulum.Vectors
