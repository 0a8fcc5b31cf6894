import Mathlib.Data.List.GetD
import Mathlib.Logic.Function.Iterate
import Mathlib.Tactic.Common

/-!
# Cyclic redundancy checks

The reflected form: a register of `w` bits takes in one bit at a time at its low end. It is linear
in exclusive or, and, where the polynomial has its highest bit, loses nothing of what it takes in
during `w` steps. Hence no two code words differ in a burst of at most `w` bits.
-/

namespace Reticulum
namespace Crc
variable {w : Nat} (poly : BitVec w)

/-- The register moves down by one; what falls out is fed back. -/
def shift (c : BitVec w) : BitVec w := if c.getLsbD 0 then (c >>> 1) ^^^ poly else c >>> 1

/-- A register with the bit `b` and zeros above it. -/
def lowBit (b : Bool) : BitVec w := if b then 1#w else 0#w

def feedBit (c : BitVec w) (b : Bool) : BitVec w := shift poly (c ^^^ lowBit b)

def feed (c : BitVec w) (l : List Bool) : BitVec w := l.foldl (feedBit poly) c

/-- The low `k` bits, lowest first. -/
def bits (k : Nat) (x : BitVec w) : List Bool := (List.range k).map x.getLsbD

/-- The message `d` with its checksum, for a register that starts at `init` and is masked at the
end. -/
def code (init mask : BitVec w) (d : List Bool) : List Bool :=
  d ++ bits w (feed poly init d ^^^ mask)

variable {poly} {a b c x y : BitVec w} {k : Nat} {d d' l : List Bool}

@[simp] theorem length_bits (k : Nat) (x : BitVec w) : (bits k x).length = k := by simp [bits]

@[simp] theorem shift_zero : shift poly 0#w = 0#w := by simp [shift]

theorem shift_xor (a b : BitVec w) : shift poly (a ^^^ b) = shift poly a ^^^ shift poly b := by
  unfold shift
  rw [BitVec.getLsbD_xor, BitVec.ushiftRight_xor_distrib]
  cases ha : a.getLsbD 0 <;> cases hb : b.getLsbD 0
  · simp
  · simp [BitVec.xor_assoc]
  · simp only [Bool.xor_false, if_true, Bool.false_eq_true, if_false]
    rw [BitVec.xor_assoc, BitVec.xor_assoc, BitVec.xor_comm poly]
  · simp only [Bool.xor_self, Bool.false_eq_true, if_false, if_true]
    rw [BitVec.xor_assoc, ← BitVec.xor_assoc poly, BitVec.xor_comm poly, BitVec.xor_assoc,
      BitVec.xor_self, BitVec.xor_zero]

theorem lowBit_xor (u v : Bool) : (lowBit (u ^^ v) : BitVec w) = lowBit u ^^^ lowBit v := by
  cases u <;> cases v <;> simp [lowBit]

theorem feedBit_xor (a b : BitVec w) (u v : Bool) :
    feedBit poly (a ^^^ b) (u ^^ v) = feedBit poly a u ^^^ feedBit poly b v := by
  unfold feedBit
  rw [← shift_xor, lowBit_xor]
  congr 1
  rw [BitVec.xor_assoc, BitVec.xor_assoc, ← BitVec.xor_assoc b, BitVec.xor_comm b,
    BitVec.xor_assoc]

theorem feed_append (c : BitVec w) (l l' : List Bool) :
    feed poly c (l ++ l') = feed poly (feed poly c l) l' := List.foldl_append

/-- The register is linear in what it starts from and what it takes in. -/
theorem feed_xor (a b : BitVec w) (h : d.length = d'.length) :
    feed poly (a ^^^ b) (List.zipWith (· ^^ ·) d d') = feed poly a d ^^^ feed poly b d' := by
  induction d generalizing d' a b with
  | nil =>
    rw [List.length_eq_zero_iff.mp h.symm]
    rfl
  | cons u d ih =>
    cases d' with
    | nil => cases h
    | cons v d' =>
      rw [List.zipWith_cons_cons]
      show feed poly (feedBit poly (a ^^^ b) (u ^^ v)) _ = _
      rw [feedBit_xor, ih _ _ (Nat.succ.inj h)]
      rfl

theorem feed_replicate (n : Nat) : feed poly 0#w (List.replicate n false) = 0#w := by
  induction n with
  | zero => rfl
  | succ n ih =>
    have hstep : feedBit poly 0#w false = 0#w := by simp [feedBit, lowBit]
    show feed poly (feedBit poly 0#w false) (List.replicate n false) = 0#w
    rw [hstep, ih]

/-! ### What the register holds -/

theorem ushiftRight_lowBit (u : Bool) : (lowBit u : BitVec w) >>> 1 = 0#w := by
  apply BitVec.eq_of_getLsbD_eq
  intro i hi
  cases u <;> simp [lowBit, BitVec.getLsbD_one]

theorem getLsbD_lowBit (u : Bool) (h : 0 < w) : (lowBit u : BitVec w).getLsbD 0 = u := by
  cases u <;> simp [lowBit, h]

/-- A step on a register from which its lowest bit is taken. -/
theorem shift_eq_feedBit (c x : BitVec w) :
    shift poly (c ^^^ x) = feedBit poly c (x.getLsbD 0) ^^^ (x >>> 1) := by
  have hx : shift poly x = shift poly (lowBit (x.getLsbD 0)) ^^^ (x >>> 1) := by
    unfold shift
    rcases Nat.eq_zero_or_pos w with rfl | hw
    · exact BitVec.eq_of_toNat_eq (by simp [BitVec.of_length_zero])
    · rw [getLsbD_lowBit _ hw, ushiftRight_lowBit]
      split
      · rw [BitVec.zero_xor, BitVec.xor_comm]
      · rw [BitVec.zero_xor]
  rw [shift_xor, hx, feedBit, shift_xor, BitVec.xor_assoc]

theorem bits_succ (k : Nat) (x : BitVec w) : bits (k + 1) x = bits k x ++ [x.getLsbD k] := by
  rw [bits, List.range_succ, List.map_append]
  rfl

/-- To step a register with `x` added in is to feed the low bits of `x`, the rest of which moves
down. -/
theorem iterate_shift (k : Nat) (c x : BitVec w) :
    (shift poly)^[k] (c ^^^ x) = feed poly c (bits k x) ^^^ (x >>> k) := by
  induction k with
  | zero =>
    rw [BitVec.ushiftRight_zero]
    rfl
  | succ k ih =>
    have hbit : (x >>> k).getLsbD 0 = x.getLsbD k := by simp
    rw [Function.iterate_succ_apply', ih, shift_eq_feedBit, hbit, bits_succ, feed_append,
      BitVec.shiftRight_add]
    rfl

/-- A register that is fed its own bits is empty. -/
theorem feed_bits_self (c : BitVec w) : feed poly c (bits w c) = 0#w := by
  have h : (shift poly)^[w] (c ^^^ c) = _ := iterate_shift w c c
  have hout : c >>> w = 0#w := by
    apply BitVec.eq_of_getLsbD_eq
    intro i hi
    simp
  have hzero : ∀ k, (shift poly)^[k] 0#w = 0#w := by
    intro k
    exact Function.iterate_fixed shift_zero k
  rw [BitVec.xor_self, hzero, hout, BitVec.xor_zero] at h
  exact h.symm

theorem bits_xor (x y : BitVec w) :
    bits k (x ^^^ y) = List.zipWith (· ^^ ·) (bits k x) (bits k y) := by
  simp [bits, List.zipWith_map_left, List.zipWith_map_right, List.zipWith_self]

/-- Every code word leaves the register with the same contents. -/
theorem feed_code (init mask : BitVec w) (d : List Bool) :
    feed poly init (code poly init mask d) = feed poly 0#w (bits w mask) := by
  rw [code, feed_append]
  generalize feed poly init d = c
  have h : feed poly (c ^^^ 0#w) (List.zipWith (· ^^ ·) (bits w c) (bits w mask)) = _ :=
    feed_xor c 0#w (by simp)
  rw [BitVec.xor_zero, ← bits_xor, feed_bits_self, BitVec.zero_xor] at h
  exact h

/-! ### Bursts -/

/-- A register that is empty after at most `w` bits held just these: what a step feeds back would
still show in it. -/
theorem getLsbD_of_feed_eq_zero (hpoly : poly.msb = true) (hl : l.length ≤ w)
    (h : feed poly c l = 0#w) (i : Nat) : c.getLsbD i = l.getD i false := by
  induction l generalizing c i with
  | nil =>
    have hc : c = 0#w := h
    rw [hc]
    simp
  | cons u l ih =>
    rw [List.length_cons] at hl
    have hnext := ih (by omega) (show feed poly (feedBit poly c u) l = 0#w from h)
    have htop : (feedBit poly c u).getLsbD (w - 1) = false := by
      rw [hnext, List.getD_eq_default _ _ (by omega)]
    have hlow : (c ^^^ lowBit u).getLsbD 0 = false := by
      by_contra hone
      rw [feedBit, shift, if_pos (by simpa using hone), BitVec.getLsbD_xor,
        ← BitVec.msb_eq_getLsbD_last poly, hpoly] at htop
      have hout : ((c ^^^ lowBit u) >>> 1).getLsbD (w - 1) = false := by
        rw [BitVec.getLsbD_ushiftRight]
        exact BitVec.getLsbD_of_ge _ _ (by omega)
      rw [hout] at htop
      exact absurd htop (by decide)
    have hdown : feedBit poly c u = c >>> 1 := by
      rw [feedBit, shift, if_neg (by simp [hlow]), BitVec.ushiftRight_xor_distrib,
        ushiftRight_lowBit, BitVec.xor_zero]
    cases i with
    | zero =>
      rw [BitVec.getLsbD_xor, getLsbD_lowBit u (by omega)] at hlow
      simpa using hlow
    | succ i =>
      have hi := hnext i
      rw [hdown, BitVec.getLsbD_ushiftRight, Nat.add_comm] at hi
      simpa using hi

theorem eq_zero_of_feed_replicate (hpoly : poly.msb = true) (n : Nat)
    (h : feed poly c (List.replicate n false) = 0#w) : c = 0#w := by
  have hw : 0 < w := by
    by_contra hw
    have hzero : w = 0 := by omega
    subst hzero
    simp [BitVec.of_length_zero] at hpoly
  induction n generalizing c with
  | zero => exact h
  | succ n ih =>
    have hstep : feed poly c [false] = 0#w := ih h
    apply BitVec.eq_of_getLsbD_eq
    intro i hi
    rw [getLsbD_of_feed_eq_zero hpoly (show [false].length ≤ w from hw) hstep i]
    cases i <;> simp

theorem eq_replicate_of_getD {e : List Bool} (h : ∀ i, e.getD i false = false) :
    e = List.replicate e.length false := by
  apply List.eq_replicate_of_mem
  intro u hu
  obtain ⟨i, hi, rfl⟩ := List.mem_iff_getElem.mp hu
  rw [← List.getD_eq_getElem e false hi, h i]

/-- Nothing that is fed to an empty register and leaves it empty lies within `w` bits. -/
theorem eq_replicate_of_burst (hpoly : poly.msb = true) {e : List Bool} (h : feed poly 0#w e = 0#w)
    (p : Nat) (hburst : ∀ i, e.getD i false = true → p ≤ i ∧ i < p + w) :
    e = List.replicate e.length false := by
  have hquiet : ∀ i, ¬(p ≤ i ∧ i < p + w) → e.getD i false = false := by
    intro i hi
    rw [← Bool.not_eq_true]
    exact fun hset => hi (hburst i hset)
  have hsplit : e = e.take p ++ ((e.drop p).take w ++ e.drop (p + w)) := by
    rw [← List.drop_drop, List.take_append_drop, List.take_append_drop]
  have hbefore : e.take p = List.replicate (e.take p).length false := by
    apply eq_replicate_of_getD
    intro i
    rw [List.getD_eq_getElem?_getD, List.getElem?_take]
    split
    · rw [← List.getD_eq_getElem?_getD]
      exact hquiet i (by omega)
    · rfl
  have hafter : e.drop (p + w) = List.replicate (e.drop (p + w)).length false := by
    apply eq_replicate_of_getD
    intro i
    rw [List.getD_eq_getElem?_getD, List.getElem?_drop, ← List.getD_eq_getElem?_getD]
    exact hquiet _ (by omega)
  have hwithin : feed poly 0#w ((e.drop p).take w) = 0#w := by
    rw [hsplit, feed_append, feed_append, hbefore, feed_replicate, hafter] at h
    exact eq_zero_of_feed_replicate hpoly _ h
  apply eq_replicate_of_getD
  intro i
  by_cases hi : p ≤ i ∧ i < p + w
  · have hbit := getLsbD_of_feed_eq_zero hpoly (List.length_take_le w _) hwithin (i - p)
    have hpos : p + (i - p) = i := by omega
    have hin : i - p < w := by omega
    rw [BitVec.getLsbD_zero, List.getD_eq_getElem?_getD, List.getElem?_take, if_pos hin,
      List.getElem?_drop, hpos, ← List.getD_eq_getElem?_getD] at hbit
    exact hbit.symm
  · exact hquiet i hi

/-- Words of one length that leave the same contents are equal if they differ within `w` bits. -/
theorem eq_of_burst (hpoly : poly.msb = true) (hlen : d.length = d'.length)
    (hsame : feed poly c d = feed poly c d') (p : Nat)
    (hburst : ∀ i, d.getD i false ≠ d'.getD i false → p ≤ i ∧ i < p + w) : d = d' := by
  have hfeed : feed poly 0#w (List.zipWith (· ^^ ·) d d') = 0#w := by
    have h : feed poly (c ^^^ c) (List.zipWith (· ^^ ·) d d') = _ := feed_xor c c hlen
    rw [BitVec.xor_self, hsame, BitVec.xor_self] at h
    exact h
  have hbit : ∀ i (h : i < d.length), (List.zipWith (· ^^ ·) d d').getD i false =
      (d[i] ^^ d'[i]) := by
    intro i h
    rw [List.getD_eq_getElem _ _ (by simp; omega), List.getElem_zipWith]
  have hquiet := eq_replicate_of_burst hpoly hfeed p (by
    intro i hset
    apply hburst
    intro heq
    by_cases hi : i < d.length
    · rw [hbit i hi, ← List.getD_eq_getElem d false hi,
        ← List.getD_eq_getElem d' false (hlen ▸ hi), heq, Bool.xor_self] at hset
      cases hset
    · rw [List.getD_eq_default _ _ (by simp; omega)] at hset
      cases hset)
  apply List.ext_getElem hlen
  intro i hi hi'
  have hzero := hbit i hi
  rw [hquiet, List.getD_replicate] at hzero
  · simpa using hzero.symm
  · simp
    omega

end Crc
end Reticulum
