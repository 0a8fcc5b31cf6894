import Mathlib.Data.UInt
import Mathlib.Tactic.Common

/-!
# Byte strings (`rns/Bytes`)

`Bytes` is the owning byte vector of the stack. The tables key their maps by `to_hex` of a hash, so
the one fact they need is that `toHex` is injective; it has the left inverse `fromHex`.
-/

namespace Reticulum

/-- The exceptions the stack throws, with their `what()` texts. -/
inductive Exn where
  | invalidArgument (what : String)
  | runtimeError (what : String)
deriving DecidableEq, Repr

theorem bind_eq_ok {ε α β : Type} {x : Except ε α} {f : α → Except ε β} {b : β}
    (h : x >>= f = .ok b) : ∃ a, x = .ok a ∧ f a = .ok b := by
  cases x with
  | error e => cases h
  | ok a => exact ⟨a, rfl, h⟩

theorem map_eq_ok {ε α β : Type} {x : Except ε α} {f : α → β} {b : β} (h : x.map f = .ok b) :
    ∃ a, x = .ok a ∧ f a = b := by
  cases x with
  | error e => cases h
  | ok a => exact ⟨a, rfl, Except.ok.inj h⟩

theorem toOption_eq_some {ε α : Type} {x : Except ε α} {a : α} (h : x.toOption = some a) :
    x = .ok a := by
  cases x with
  | error e => cases h
  | ok b => cases h; rfl

theorem forall_byte {P : UInt8 → Prop} (h : ∀ n < 256, P (UInt8.ofNat n)) : ∀ x, P x :=
  fun x => by simpa using h x.toNat x.toNat_lt

abbrev Bytes := List UInt8

/-- A lower-case hex string, one character code a byte. -/
abbrev HexString := List UInt8

namespace Bytes

/-- `slice(offset, len)`: the bytes of `[offset, offset + len)` the buffer has. -/
def slice (b : Bytes) (offset len : Nat) : Bytes := (b.drop offset).take len

def sliceFrom (b : Bytes) (offset : Nat) : Bytes := b.drop offset

/-- `operator[]`; every use in the stack is within bounds. -/
def byteAt (b : Bytes) (i : Nat) : UInt8 := b.getD i 0

def hexDigit (n : UInt8) : UInt8 := if n < 10 then 48 + n else 87 + n

/-- `hex_nibble`; `none` is the source's `-1`. -/
def hexNibble (c : UInt8) : Option UInt8 :=
  if 48 ≤ c ∧ c ≤ 57 then some (c - 48)
  else if 97 ≤ c ∧ c ≤ 102 then some (10 + (c - 97))
  else if 65 ≤ c ∧ c ≤ 70 then some (10 + (c - 65))
  else none

def toHex : Bytes → HexString
  | [] => []
  | x :: rest => hexDigit ((x >>> 4) &&& 0x0f) :: hexDigit (x &&& 0x0f) :: toHex rest

/-- `from_hex`. The length is checked before any digit is read. -/
def fromHex (hex : HexString) : Except Exn Bytes :=
  if hex.length % 2 ≠ 0 then .error (.invalidArgument "Bytes::from_hex: odd-length input")
  else pairs hex
where
  pairs : HexString → Except Exn Bytes
    | c :: d :: rest =>
      match hexNibble c, hexNibble d with
      | some hi, some lo => (pairs rest).map ((hi <<< 4 ||| lo) :: ·)
      | _, _ => .error (.invalidArgument "Bytes::from_hex: non-hex character")
    | _ => .ok []

theorem length_slice (b : Bytes) (offset len : Nat) :
    (b.slice offset len).length = min len (b.length - offset) := by
  simp [slice]

theorem length_slice_of_le {b : Bytes} {offset len : Nat} (h : offset + len ≤ b.length) :
    (b.slice offset len).length = len := by
  rw [length_slice]; omega

theorem slice_append_left {a b : Bytes} {len : Nat} (h : a.length = len) :
    (a ++ b).slice 0 len = a := by
  simp [slice, ← h]

theorem slice_append_right {a : Bytes} (b : Bytes) {offset : Nat} (len : Nat)
    (h : a.length = offset) : (a ++ b).slice offset len = b.take len := by
  simp [slice, ← h]

theorem length_toHex (b : Bytes) : (toHex b).length = 2 * b.length := by
  induction b with
  | nil => rfl
  | cons x rest ih => simp only [toHex, List.length_cons, ih]; omega

theorem hexNibble_hexDigit_byte (x : UInt8) :
    hexNibble (hexDigit ((x >>> 4) &&& 0x0f)) = some ((x >>> 4) &&& 0x0f) ∧
      hexNibble (hexDigit (x &&& 0x0f)) = some (x &&& 0x0f) ∧
      (((x >>> 4) &&& 0x0f) <<< 4 ||| (x &&& 0x0f)) = x := by
  have key : ∀ n < 256, ∀ y, y = UInt8.ofNat n →
      hexNibble (hexDigit ((y >>> 4) &&& 0x0f)) = some ((y >>> 4) &&& 0x0f) ∧
        hexNibble (hexDigit (y &&& 0x0f)) = some (y &&& 0x0f) ∧
        (((y >>> 4) &&& 0x0f) <<< 4 ||| (y &&& 0x0f)) = y := by
    simp only [forall_eq]
    decide +kernel
  exact key x.toNat x.toNat_lt x (by simp)

theorem fromHex_toHex (b : Bytes) : fromHex (toHex b) = .ok b := by
  have hp : fromHex.pairs (toHex b) = .ok b := by
    induction b with
    | nil => rfl
    | cons x rest ih =>
      obtain ⟨hhi, hlo, hx⟩ := hexNibble_hexDigit_byte x
      simp only [toHex, fromHex.pairs, hhi, hlo, ih, hx]
      rfl
  rw [fromHex, length_toHex, if_neg (by omega), hp]

/-- The hex form identifies a byte string, so keying a map by it loses nothing. -/
theorem toHex_injective : Function.Injective toHex := by
  intro a b h
  have := congrArg fromHex h
  rw [fromHex_toHex, fromHex_toHex] at this
  exact Except.ok.inj this

end Bytes

def keyOf (b : Bytes) : HexString := b.toHex

@[simp] theorem keyOf_inj {a b : Bytes} : keyOf a = keyOf b ↔ a = b :=
  Bytes.toHex_injective.eq_iff

end Reticulum
