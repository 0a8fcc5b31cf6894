import Reticulum.Lib.Endian

/-!
# The msgpack format

Which bytes stand for which values, for the part of the format without `str32`, `bin32`, the
extension types and their timestamps. `Elems n bs` are `n` elements one after another: an array or
map header leaves its elements to what follows it.
-/

namespace Reticulum
namespace MsgpackFormat
open Endian

inductive IntForm : Int → List UInt8 → Prop
  | posFix {n : Nat} (h : n < 128) : IntForm n [UInt8.ofNat n]
  | negFix {n : Nat} (h : n < 32) : IntForm (n - 32) [UInt8.ofNat (0xe0 + n)]
  | uint8 {n : Nat} (h : n < 256 ^ 1) : IntForm n (0xcc :: toBe 1 n)
  | uint16 {n : Nat} (h : n < 256 ^ 2) : IntForm n (0xcd :: toBe 2 n)
  | uint32 {n : Nat} (h : n < 256 ^ 4) : IntForm n (0xce :: toBe 4 n)
  | uint64 {n : Nat} (h : n < 256 ^ 8) : IntForm n (0xcf :: toBe 8 n)
  | int8 {v : Int} (hlo : -2 ^ 7 ≤ v) (hhi : v < 2 ^ 7) :
    IntForm v (0xd0 :: toBe 1 (v % 256 ^ 1).toNat)
  | int16 {v : Int} (hlo : -2 ^ 15 ≤ v) (hhi : v < 2 ^ 15) :
    IntForm v (0xd1 :: toBe 2 (v % 256 ^ 2).toNat)
  | int32 {v : Int} (hlo : -2 ^ 31 ≤ v) (hhi : v < 2 ^ 31) :
    IntForm v (0xd2 :: toBe 4 (v % 256 ^ 4).toNat)
  | int64 {v : Int} (hlo : -2 ^ 63 ≤ v) (hhi : v < 2 ^ 63) :
    IntForm v (0xd3 :: toBe 8 (v % 256 ^ 8).toNat)

inductive StrForm : List UInt8 → List UInt8 → Prop
  | fixstr {s : List UInt8} (h : s.length < 32) : StrForm s (UInt8.ofNat (0xa0 + s.length) :: s)
  | str8 {s : List UInt8} (h : s.length < 256 ^ 1) : StrForm s (0xd9 :: toBe 1 s.length ++ s)
  | str16 {s : List UInt8} (h : s.length < 256 ^ 2) : StrForm s (0xda :: toBe 2 s.length ++ s)

inductive BinForm : List UInt8 → List UInt8 → Prop
  | bin8 {b : List UInt8} (h : b.length < 256 ^ 1) : BinForm b (0xc4 :: toBe 1 b.length ++ b)
  | bin16 {b : List UInt8} (h : b.length < 256 ^ 2) : BinForm b (0xc5 :: toBe 2 b.length ++ b)

/-- The header of a collection: the count is part of the tag, or follows it. -/
inductive Head (fix : Nat) (tag16 tag32 : UInt8) : Nat → List UInt8 → Prop
  | fix {n : Nat} (h : n < 16) : Head fix tag16 tag32 n [UInt8.ofNat (fix + n)]
  | wide16 {n : Nat} (h : n < 256 ^ 2) : Head fix tag16 tag32 n (tag16 :: toBe 2 n)
  | wide32 {n : Nat} (h : n < 256 ^ 4) : Head fix tag16 tag32 n (tag32 :: toBe 4 n)

abbrev ArrayHead : Nat → List UInt8 → Prop := Head 0x90 0xdc 0xdd

/-- The header of a map with `n` key-value pairs. -/
abbrev MapHead : Nat → List UInt8 → Prop := Head 0x80 0xde 0xdf

inductive Elems : Nat → List UInt8 → Prop
  | done : Elems 0 []
  | nil {n : Nat} {rest : List UInt8} (h : Elems n rest) : Elems (n + 1) (0xc0 :: rest)
  | bool {n : Nat} {rest : List UInt8} (b : Bool) (h : Elems n rest) :
    Elems (n + 1) ((if b then 0xc3 else 0xc2) :: rest)
  | int {n : Nat} {v : Int} {bs rest : List UInt8} (hv : IntForm v bs) (h : Elems n rest) :
    Elems (n + 1) (bs ++ rest)
  | float32 {n : Nat} {rest : List UInt8} (bits : Nat) (h : Elems n rest) :
    Elems (n + 1) (0xca :: toBe 4 bits ++ rest)
  | float64 {n : Nat} {rest : List UInt8} (bits : Nat) (h : Elems n rest) :
    Elems (n + 1) (0xcb :: toBe 8 bits ++ rest)
  | str {n : Nat} {s bs rest : List UInt8} (hs : StrForm s bs) (h : Elems n rest) :
    Elems (n + 1) (bs ++ rest)
  | bin {n : Nat} {b bs rest : List UInt8} (hb : BinForm b bs) (h : Elems n rest) :
    Elems (n + 1) (bs ++ rest)
  | array {n k : Nat} {bs rest : List UInt8} (hk : ArrayHead k bs) (h : Elems (k + n) rest) :
    Elems (n + 1) (bs ++ rest)
  | map {n k : Nat} {bs rest : List UInt8} (hk : MapHead k bs) (h : Elems (2 * k + n) rest) :
    Elems (n + 1) (bs ++ rest)

end MsgpackFormat
end Reticulum
