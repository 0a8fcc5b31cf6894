import Reticulum.Rns.Bytes

/-!
# The crypto API (`rns/Crypto`)

The primitives come from a third-party library that fills fixed-size buffers; they are a parameter,
`CryptoLib`. The wrappers of `Crypto.cpp` around them are modelled as they stand.
-/

namespace Reticulum

/-- The library behind `Crypto.cpp`: SHA-256, Ed25519 and Curve25519 over raw buffers. -/
class CryptoLib where
  /-- `SHA256`: one `update`, then `finalize` into 32 bytes. -/
  sha256 : Bytes → Vector UInt8 32
  derivePublicKey : (priv : Bytes) → Vector UInt8 32
  sign : (priv pub msg : Bytes) → Vector UInt8 64
  verify : (sig pub msg : Bytes) → Bool
  /-- `Curve25519::eval`; `none` when it reports a weak point. -/
  eval : (scalar point : Bytes) → Option (Vector UInt8 32)

variable [CryptoLib]

def sha256 (b : Bytes) : Bytes := (CryptoLib.sha256 b).toList

@[simp] theorem length_sha256 (b : Bytes) : (sha256 b).length = 32 := by simp [sha256]

def ed25519PublicFromPrivate (priv : Bytes) : Except Exn Bytes :=
  if priv.length ≠ 32 then
    .error (.invalidArgument "ed25519_public_from_private: priv must be 32 bytes")
  else .ok (CryptoLib.derivePublicKey priv).toList

def ed25519Sign (priv msg : Bytes) : Except Exn Bytes :=
  if priv.length ≠ 32 then .error (.invalidArgument "ed25519_sign: priv must be 32 bytes")
  else .ok (CryptoLib.sign priv (CryptoLib.derivePublicKey priv).toList msg).toList

def ed25519Verify (pub sig msg : Bytes) : Bool :=
  if pub.length ≠ 32 ∨ sig.length ≠ 64 then false else CryptoLib.verify sig pub msg

def x25519Basepoint : Bytes := 9 :: List.replicate 31 0

def x25519Clamp (scalar : Bytes) : Bytes :=
  (scalar.set 0 (scalar.byteAt 0 &&& 0xF8)).set 31 ((scalar.byteAt 31 &&& 0x7F) ||| 0x40)

def x25519PublicFromPrivate (priv : Bytes) : Except Exn Bytes :=
  if priv.length ≠ 32 then
    .error (.invalidArgument "x25519_public_from_private: priv must be 32 bytes")
  else
    match CryptoLib.eval (x25519Clamp priv) x25519Basepoint with
    | none => .error (.runtimeError "x25519_public_from_private: eval failed")
    | some pub => .ok pub.toList

theorem length_of_ed25519Sign {priv msg sig : Bytes} (h : ed25519Sign priv msg = .ok sig) :
    sig.length = 64 := by
  unfold ed25519Sign at h
  split at h
  · cases h
  · cases h; simp

theorem length_of_ed25519PublicFromPrivate {priv pub : Bytes}
    (h : ed25519PublicFromPrivate priv = .ok pub) : pub.length = 32 := by
  unfold ed25519PublicFromPrivate at h
  split at h
  · cases h
  · cases h; simp

theorem length_of_x25519PublicFromPrivate {priv pub : Bytes}
    (h : x25519PublicFromPrivate priv = .ok pub) : pub.length = 32 := by
  unfold x25519PublicFromPrivate at h
  split at h
  · cases h
  split at h
  · cases h
  · cases h; simp

end Reticulum
