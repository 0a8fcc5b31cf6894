import Mathlib.Data.UInt
import Mathlib.Tactic.Common

/-!
# SHA-256 that the kernel can run

Words are naturals below `2 ^ 32`, on which the kernel computes natively. `force` makes it evaluate
a word before going on; without it the expressions for the state double with every round.
-/

namespace Reticulum.Sha256

/-- `f n`, with `n` evaluated first. -/
def force {α : Type} (n : Nat) (f : Nat → α) : α :=
  match n with
  | 0 => f 0
  | m + 1 => f (m + 1)

def modulus : Nat := 4294967296

/-- `x` as a word. -/
def word (x : Nat) : Nat := x % modulus

def rotr (x n : Nat) : Nat := (x >>> n) ||| word (x <<< (32 - n))

def bigSigma0 (x : Nat) : Nat := rotr x 2 ^^^ rotr x 13 ^^^ rotr x 22
def bigSigma1 (x : Nat) : Nat := rotr x 6 ^^^ rotr x 11 ^^^ rotr x 25
def smallSigma0 (x : Nat) : Nat := rotr x 7 ^^^ rotr x 18 ^^^ (x >>> 3)
def smallSigma1 (x : Nat) : Nat := rotr x 17 ^^^ rotr x 19 ^^^ (x >>> 10)
def ch (e f g : Nat) : Nat := (e &&& f) ^^^ ((modulus - 1 - e) &&& g)
def maj (a b c : Nat) : Nat := (a &&& b) ^^^ (a &&& c) ^^^ (b &&& c)

def roundConstants : List Nat := [
  0x428a2f98, 0x71374491, 0xb5c0fbcf, 0xe9b5dba5, 0x3956c25b, 0x59f111f1, 0x923f82a4, 0xab1c5ed5,
  0xd807aa98, 0x12835b01, 0x243185be, 0x550c7dc3, 0x72be5d74, 0x80deb1fe, 0x9bdc06a7, 0xc19bf174,
  0xe49b69c1, 0xefbe4786, 0x0fc19dc6, 0x240ca1cc, 0x2de92c6f, 0x4a7484aa, 0x5cb0a9dc, 0x76f988da,
  0x983e5152, 0xa831c66d, 0xb00327c8, 0xbf597fc7, 0xc6e00bf3, 0xd5a79147, 0x06ca6351, 0x14292967,
  0x27b70a85, 0x2e1b2138, 0x4d2c6dfc, 0x53380d13, 0x650a7354, 0x766a0abb, 0x81c2c92e, 0x92722c85,
  0xa2bfe8a1, 0xa81a664b, 0xc24b8b70, 0xc76c51a3, 0xd192e819, 0xd6990624, 0xf40e3585, 0x106aa070,
  0x19a4c116, 0x1e376c08, 0x2748774c, 0x34b0bcb5, 0x391c0cb3, 0x4ed8aa4a, 0x5b9cca4f, 0x682e6ff3,
  0x748f82ee, 0x78a5636f, 0x84c87814, 0x8cc70208, 0x90befffa, 0xa4506ceb, 0xbef9a3f7, 0xc67178f2]

structure State where
  (a b c d e f g h : Nat)

def initial : State :=
  ⟨0x6a09e667, 0xbb67ae85, 0x3c6ef372, 0xa54ff53a, 0x510e527f, 0x9b05688c, 0x1f83d9ab, 0x5be0cd19⟩

/-- `n` more words of the message schedule, which is kept newest first. -/
def extend : Nat → List Nat → List Nat
  | 0, w => w
  | n + 1, w =>
    force (word (smallSigma1 (w.getD 1 0) + w.getD 6 0 + smallSigma0 (w.getD 14 0) + w.getD 15 0))
      fun x => extend n (x :: w)

/-- One round, on the sum of its constant and its schedule word. -/
def round (s : State) (kw : Nat) : State :=
  force (word (s.h + bigSigma1 s.e + ch s.e s.f s.g + kw)) fun t₁ =>
  force (word (s.d + t₁)) fun e =>
  force (word (t₁ + bigSigma0 s.a + maj s.a s.b s.c)) fun a =>
  ⟨a, s.a, s.b, s.c, e, s.e, s.f, s.g⟩

def rounds : List Nat → List Nat → State → State
  | k :: ks, w :: ws, s => rounds ks ws (round s (k + w))
  | _, _, s => s

def words : List Nat → List Nat
  | a :: b :: c :: d :: rest =>
    force (a * 16777216 + b * 65536 + c * 256 + d) fun x => x :: words rest
  | _ => []

def State.add (s t : State) : State :=
  force (word (s.a + t.a)) fun a => force (word (s.b + t.b)) fun b =>
  force (word (s.c + t.c)) fun c => force (word (s.d + t.d)) fun d =>
  force (word (s.e + t.e)) fun e => force (word (s.f + t.f)) fun f =>
  force (word (s.g + t.g)) fun g => force (word (s.h + t.h)) fun h => ⟨a, b, c, d, e, f, g, h⟩

def compress (s : State) (block : List Nat) : State :=
  s.add (rounds roundConstants (extend 48 (words block).reverse).reverse s)

def blocks : Nat → List Nat → State → State
  | 0, _, s => s
  | n + 1, m, s => blocks n (m.drop 64) (compress s (m.take 64))

/-- The message, a one bit, zeros, and the length in bits as eight bytes. -/
def pad (m : List Nat) : List Nat :=
  let n := m.length
  m ++ 128 :: List.replicate ((119 - n % 64) % 64) 0 ++
    [7, 6, 5, 4, 3, 2, 1, 0].map fun i => n * 8 / 256 ^ i % 256

def wordBytes (x : Nat) : List UInt8 :=
  [3, 2, 1, 0].map fun i => UInt8.ofNat (x / 256 ^ i % 256)

def State.toBytes (s : State) : List UInt8 :=
  wordBytes s.a ++ wordBytes s.b ++ wordBytes s.c ++ wordBytes s.d ++
    wordBytes s.e ++ wordBytes s.f ++ wordBytes s.g ++ wordBytes s.h

theorem State.length_toBytes (s : State) : s.toBytes.length = 32 := by
  simp [toBytes, wordBytes]

def hash (m : List UInt8) : Vector UInt8 32 :=
  let padded := pad (m.map UInt8.toNat)
  let s := blocks (padded.length / 64) padded initial
  ⟨s.toBytes.toArray, by simp [s.length_toBytes]⟩

end Reticulum.Sha256
