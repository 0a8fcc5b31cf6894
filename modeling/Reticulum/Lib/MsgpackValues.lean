import Reticulum.Lib.MsgpackFormat

/-!
# Msgpack values

The same part of the format as trees. An encoding of a sequence of values puts those of an array's
elements, or of a map's keys and values in turn, behind its header; `Elems` counts them without
their structure.
-/

namespace Reticulum
namespace MsgpackFormat
open Endian

inductive Tree where
  | nil
  | bool (b : Bool)
  | int (v : Int)
  | float32 (bits : UInt32)
  | float64 (bits : UInt64)
  | str (s : List UInt8)
  | bin (b : List UInt8)
  | array (items : List Tree)
  | map (pairs : List (Tree × Tree))

/-- The keys and values of a map, in the order in which they are written. -/
def alternating (pairs : List (Tree × Tree)) : List Tree := pairs.flatMap fun p => [p.1, p.2]

/-- `bs` is an encoding of the values `vs` one after another; a form may be longer than needed. -/
inductive Encodes : List Tree → List UInt8 → Prop
  | done : Encodes [] []
  | nil {vs : List Tree} {rest : List UInt8} (h : Encodes vs rest) :
    Encodes (.nil :: vs) (0xc0 :: rest)
  | bool {vs : List Tree} {rest : List UInt8} (b : Bool) (h : Encodes vs rest) :
    Encodes (.bool b :: vs) ((if b then 0xc3 else 0xc2) :: rest)
  | int {vs : List Tree} {v : Int} {bs rest : List UInt8} (hv : IntForm v bs)
    (h : Encodes vs rest) : Encodes (.int v :: vs) (bs ++ rest)
  | float32 {vs : List Tree} {rest : List UInt8} (bits : UInt32) (h : Encodes vs rest) :
    Encodes (.float32 bits :: vs) (0xca :: toBe 4 bits.toNat ++ rest)
  | float64 {vs : List Tree} {rest : List UInt8} (bits : UInt64) (h : Encodes vs rest) :
    Encodes (.float64 bits :: vs) (0xcb :: toBe 8 bits.toNat ++ rest)
  | str {vs : List Tree} {s bs rest : List UInt8} (hs : StrForm s bs) (h : Encodes vs rest) :
    Encodes (.str s :: vs) (bs ++ rest)
  | bin {vs : List Tree} {b bs rest : List UInt8} (hb : BinForm b bs) (h : Encodes vs rest) :
    Encodes (.bin b :: vs) (bs ++ rest)
  | array {vs items : List Tree} {head bs rest : List UInt8} (hk : ArrayHead items.length head)
    (hi : Encodes items bs) (h : Encodes vs rest) :
    Encodes (.array items :: vs) (head ++ (bs ++ rest))
  | map {vs : List Tree} {pairs : List (Tree × Tree)} {head bs rest : List UInt8}
    (hk : MapHead pairs.length head) (hi : Encodes (alternating pairs) bs) (h : Encodes vs rest) :
    Encodes (.map pairs :: vs) (head ++ (bs ++ rest))

theorem length_alternating (pairs : List (Tree × Tree)) :
    (alternating pairs).length = 2 * pairs.length := by
  induction pairs with
  | nil => rfl
  | cons p pairs ih =>
    have hcons : alternating (p :: pairs) = p.1 :: p.2 :: alternating pairs := rfl
    rw [hcons, List.length_cons, List.length_cons, List.length_cons, ih]
    omega

theorem exists_alternating {k : Nat} {vs : List Tree} (h : vs.length = 2 * k) :
    ∃ pairs, pairs.length = k ∧ alternating pairs = vs := by
  induction k generalizing vs with
  | zero => exact ⟨[], rfl, (List.length_eq_zero_iff.mp h).symm⟩
  | succ k ih =>
    rcases vs with - | ⟨a, - | ⟨b, vs⟩⟩
    · simp at h
    · simp at h
      omega
    · have hvs : vs.length = 2 * k := by
        simp at h
        omega
      obtain ⟨pairs, hlen, hpairs⟩ := ih hvs
      refine ⟨(a, b) :: pairs, by rw [List.length_cons, hlen], ?_⟩
      have hcons : alternating ((a, b) :: pairs) = a :: b :: alternating pairs := rfl
      rw [hcons, hpairs]

theorem Elems.append {m n : Nat} {a b : List UInt8} (ha : Elems m a) (hb : Elems n b) :
    Elems (m + n) (a ++ b) := by
  induction ha with
  | done => simpa using hb
  | nil h ih => rw [Nat.add_right_comm]; exact .nil ih
  | bool v h ih => rw [Nat.add_right_comm]; exact .bool v ih
  | int hv h ih => rw [Nat.add_right_comm, List.append_assoc]; exact .int hv ih
  | float32 bits h ih => rw [Nat.add_right_comm, List.append_assoc]; exact .float32 bits ih
  | float64 bits h ih => rw [Nat.add_right_comm, List.append_assoc]; exact .float64 bits ih
  | str hs h ih => rw [Nat.add_right_comm, List.append_assoc]; exact .str hs ih
  | bin hb' h ih => rw [Nat.add_right_comm, List.append_assoc]; exact .bin hb' ih
  | array hk h ih =>
    rw [Nat.add_right_comm, List.append_assoc]
    rw [Nat.add_assoc] at ih
    exact .array hk ih
  | map hk h ih =>
    rw [Nat.add_right_comm, List.append_assoc]
    rw [Nat.add_assoc] at ih
    exact .map hk ih

/-- Forgetting the structure of the values leaves their number. -/
theorem Encodes.elems {vs : List Tree} {bs : List UInt8} (h : Encodes vs bs) :
    Elems vs.length bs := by
  induction h with
  | done => exact .done
  | nil h ih => exact .nil ih
  | bool b h ih => exact .bool b ih
  | int hv h ih => exact .int hv ih
  | float32 bits h ih => exact .float32 _ ih
  | float64 bits h ih => exact .float64 _ ih
  | str hs h ih => exact .str hs ih
  | bin hb h ih => exact .bin hb ih
  | array hk hi h ihi ih => exact .array hk (ihi.append ih)
  | map hk hi h ihi ih =>
    rw [length_alternating] at ihi
    exact .map hk (ihi.append ih)

theorem Encodes.append {vs ws : List Tree} {a b : List UInt8} (ha : Encodes vs a)
    (hb : Encodes ws b) : Encodes (vs ++ ws) (a ++ b) := by
  induction ha with
  | done => exact hb
  | nil h ih => exact .nil ih
  | bool v h ih => exact .bool v ih
  | int hv h ih => rw [List.append_assoc]; exact .int hv ih
  | float32 bits h ih => rw [List.append_assoc]; exact .float32 bits ih
  | float64 bits h ih => rw [List.append_assoc]; exact .float64 bits ih
  | str hs h ih => rw [List.append_assoc]; exact .str hs ih
  | bin hb' h ih => rw [List.append_assoc]; exact .bin hb' ih
  | array hk hi h ihi ih => rw [List.append_assoc, List.append_assoc]; exact .array hk hi ih
  | map hk hi h ihi ih => rw [List.append_assoc, List.append_assoc]; exact .map hk hi ih

end MsgpackFormat
end Reticulum
