import Mathlib.Data.Int.ModEq

/-!
# Machine integer types

A fixed-width integer type is `2 ^ bits` consecutive integers. A cast to it takes the value with
the same low bits; widened again, it is the integer that was cast exactly when the type has a value
that agrees with it in all the bits of the wider type.
-/

structure IntType where
  /-- the least value -/
  lo : Int
  bits : Nat
deriving DecidableEq

namespace IntType

def unsigned (bits : Nat) : IntType := ⟨0, bits⟩

/-- Two's complement on `n + 1` bits. -/
def signed (n : Nat) : IntType := ⟨-2 ^ n, n + 1⟩

variable {t : IntType} {v w : Int} {k : Nat}

def Mem (t : IntType) (v : Int) : Prop := t.lo ≤ v ∧ v < t.lo + 2 ^ t.bits

/-- The low `k` bits of `v` are those of a value of the type. -/
def Fits (t : IntType) (k : Nat) (v : Int) : Prop := (v - t.lo) % 2 ^ k < 2 ^ t.bits

instance : Decidable (t.Fits k v) := inferInstanceAs (Decidable (_ < _))

theorem two_pow_pos (k : Nat) : (0 : Int) < 2 ^ k := Int.pow_pos (by decide)

theorem fits_iff_exists (hk : t.bits ≤ k) :
    t.Fits k v ↔ ∃ w, t.Mem w ∧ w ≡ v [ZMOD 2 ^ k] := by
  have h₀ := Int.emod_nonneg (v - t.lo) (two_pow_pos k).ne'
  constructor
  · intro h
    refine ⟨t.lo + (v - t.lo) % 2 ^ k, ⟨by omega, by rw [Fits] at h; omega⟩, ?_⟩
    have hadd := (Int.mod_modEq (v - t.lo) (2 ^ k)).add_left t.lo
    rwa [add_sub_cancel] at hadd
  · rintro ⟨w, ⟨hlo, hhi⟩, hw⟩
    have hpow : (2 : Int) ^ t.bits ≤ 2 ^ k := by
      exact_mod_cast Nat.pow_le_pow_right (show 0 < 2 by decide) hk
    have hsub : (w - t.lo) % 2 ^ k = (v - t.lo) % 2 ^ k := hw.sub_right t.lo
    rw [Int.emod_eq_of_lt (by omega) (by omega)] at hsub
    rw [Fits, ← hsub]
    omega

theorem Mem.fits (h : t.Mem v) (hk : t.bits ≤ k) : t.Fits k v :=
  (fits_iff_exists hk).mpr ⟨v, h, .rfl⟩

end IntType
