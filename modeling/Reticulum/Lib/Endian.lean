import Mathlib.Data.UInt
import Mathlib.Tactic.Common

/-!
# Fixed-width numbers as bytes

`toBe k n` and `toLe k n` are the low `k` bytes of `n`, most and least significant first.
-/

namespace Reticulum
namespace Endian

def toBe : Nat → Nat → List UInt8
  | 0, _ => []
  | k + 1, n => toBe k (n / 256) ++ [UInt8.ofNat n]

def ofBe (bs : List UInt8) : Nat := bs.foldl (fun v b => v * 256 + b.toNat) 0

def toLe : Nat → Nat → List UInt8
  | 0, _ => []
  | k + 1, n => UInt8.ofNat n :: toLe k (n / 256)

def ofLe : List UInt8 → Nat
  | [] => 0
  | b :: rest => b.toNat + 256 * ofLe rest

@[simp] theorem length_toBe (k n : Nat) : (toBe k n).length = k := by
  induction k generalizing n with
  | zero => rfl
  | succ k ih => simp [toBe, ih]

@[simp] theorem length_toLe (k n : Nat) : (toLe k n).length = k := by
  induction k generalizing n with
  | zero => rfl
  | succ k ih => simp [toLe, ih]

theorem ofBe_toBe (k n : Nat) (h : n < 256 ^ k) : ofBe (toBe k n) = n := by
  induction k generalizing n with
  | zero =>
    rw [Nat.pow_zero] at h
    have hn : n = 0 := by omega
    simp [hn, toBe, ofBe]
  | succ k ih =>
    have hd : n / 256 < 256 ^ k := by
      rw [Nat.pow_succ] at h
      exact Nat.div_lt_of_lt_mul (by omega)
    have hrest : List.foldl (fun v b => v * 256 + b.toNat) 0 (toBe k (n / 256)) = n / 256 :=
      ih _ hd
    simp only [toBe, ofBe, List.foldl_append, List.foldl_cons, List.foldl_nil, hrest,
      UInt8.toNat_ofNat']
    omega

theorem ofBe_concat (bs : List UInt8) (b : UInt8) : ofBe (bs ++ [b]) = ofBe bs * 256 + b.toNat := by
  simp [ofBe]

theorem ofBe_lt (bs : List UInt8) : ofBe bs < 256 ^ bs.length := by
  induction bs using List.reverseRecOn with
  | nil => simp [ofBe]
  | append_singleton bs b ih =>
    have hb := b.toNat_lt
    rw [ofBe_concat, List.length_append, List.length_singleton, Nat.pow_succ]
    omega

theorem toBe_ofBe (bs : List UInt8) : toBe bs.length (ofBe bs) = bs := by
  induction bs using List.reverseRecOn with
  | nil => rfl
  | append_singleton bs b ih =>
    have hb := b.toNat_lt
    have hdiv : (ofBe bs * 256 + b.toNat) / 256 = ofBe bs := by omega
    have hlow : UInt8.ofNat (ofBe bs * 256 + b.toNat) = b := by
      apply UInt8.toNat_inj.mp
      rw [UInt8.toNat_ofNat']
      omega
    rw [List.length_append, List.length_singleton, ofBe_concat, toBe, hdiv, hlow, ih]

theorem ofLe_toLe (k n : Nat) (h : n < 256 ^ k) : ofLe (toLe k n) = n := by
  induction k generalizing n with
  | zero =>
    rw [Nat.pow_zero] at h
    have hn : n = 0 := by omega
    simp [hn, toLe, ofLe]
  | succ k ih =>
    have hd : n / 256 < 256 ^ k := by
      rw [Nat.pow_succ] at h
      exact Nat.div_lt_of_lt_mul (by omega)
    simp only [toLe, ofLe, ih _ hd, UInt8.toNat_ofNat']
    omega

theorem ofLe_lt (bs : List UInt8) : ofLe bs < 256 ^ bs.length := by
  induction bs with
  | nil => simp [ofLe]
  | cons b rest ih =>
    have hb := b.toNat_lt
    rw [ofLe, List.length_cons, Nat.pow_succ]
    omega

theorem toLe_ofLe (bs : List UInt8) : toLe bs.length (ofLe bs) = bs := by
  induction bs with
  | nil => rfl
  | cons b rest ih =>
    have hb := b.toNat_lt
    have hdiv : (b.toNat + 256 * ofLe rest) / 256 = ofLe rest := by omega
    have hlow : UInt8.ofNat (b.toNat + 256 * ofLe rest) = b := by
      apply UInt8.toNat_inj.mp
      rw [UInt8.toNat_ofNat']
      omega
    rw [List.length_cons, ofLe, toLe, hdiv, hlow, ih]

/-! ### Bytes and shifts -/

theorem toNat_low (n : Nat) : n &&& 0xff = n % 256 := Nat.and_two_pow_sub_one_eq_mod n 8

theorem shift16_toBe (v : UInt16) :
    [((v >>> 8) &&& 0xff).toUInt8, (v &&& 0xff).toUInt8] = toBe 2 v.toNat := by
  have hlow : (v &&& 0xff).toUInt8 = UInt8.ofNat v.toNat := by
    apply UInt8.toNat_inj.mp
    simp [toNat_low]
  have hhigh : ((v >>> 8) &&& 0xff).toUInt8 = UInt8.ofNat (v.toNat / 256) := by
    apply UInt8.toNat_inj.mp
    simp [toNat_low, Nat.shiftRight_eq_div_pow]
  rw [hlow, hhigh]
  rfl

theorem shift32_toBe (v : UInt32) :
    [((v >>> 24) &&& 0xff).toUInt8, ((v >>> 16) &&& 0xff).toUInt8, ((v >>> 8) &&& 0xff).toUInt8,
      (v &&& 0xff).toUInt8] = toBe 4 v.toNat := by
  have hlow : (v &&& 0xff).toUInt8 = UInt8.ofNat v.toNat := by
    apply UInt8.toNat_inj.mp
    simp [toNat_low]
  have hshift : ∀ i : UInt32,
      ((v >>> i) &&& 0xff).toUInt8 = UInt8.ofNat (v.toNat / 2 ^ (i.toNat % 32)) := by
    intro i
    apply UInt8.toNat_inj.mp
    simp [toNat_low, Nat.shiftRight_eq_div_pow]
  rw [hlow, hshift, hshift, hshift]
  simp only [toBe, List.nil_append, List.cons_append, Nat.div_div_eq_div_mul]
  rfl

theorem shiftLeft_or {b i : Nat} (hb : b < 2 ^ i) (a : Nat) : a <<< i ||| b = a * 2 ^ i + b := by
  rw [← Nat.shiftLeft_add_eq_or_of_lt hb, Nat.shiftLeft_eq]

/-- Two bytes put together by shifts. -/
theorem toNat_shift16 (b₀ b₁ : UInt8) :
    (b₀.toUInt16 <<< 8 ||| b₁.toUInt16).toNat = ofBe [b₀, b₁] := by
  have h₀ : b₀.toNat < 2 ^ 8 := b₀.toNat_lt
  have h₁ : b₁.toNat < 2 ^ 8 := b₁.toNat_lt
  have hshift : (b₀.toUInt16 <<< 8).toNat = b₀.toNat <<< 8 := by
    rw [UInt16.toNat_shiftLeft, UInt8.toNat_toUInt16]
    show b₀.toNat <<< 8 % 2 ^ 16 = b₀.toNat <<< 8
    rw [Nat.shiftLeft_eq]
    omega
  rw [UInt16.toNat_or, hshift, UInt8.toNat_toUInt16, shiftLeft_or h₁]
  simp [ofBe]

theorem toNat_shift32 (b₀ b₁ b₂ b₃ : UInt8) :
    (b₀.toUInt32 <<< 24 ||| b₁.toUInt32 <<< 16 ||| b₂.toUInt32 <<< 8 ||| b₃.toUInt32).toNat =
      ofBe [b₀, b₁, b₂, b₃] := by
  have hlt : ∀ b : UInt8, b.toNat < 2 ^ 8 := fun b => b.toNat_lt
  have hshift : ∀ (b : UInt8) (i : Nat), i ≤ 24 → (UInt32.ofNat i).toNat % 32 = i →
      (b.toUInt32 <<< UInt32.ofNat i).toNat = b.toNat <<< i := by
    intro b i hi hmod
    have hpow : 2 ^ i ≤ 2 ^ 24 := Nat.pow_le_pow_right (by decide) hi
    have hbig : b.toNat * 2 ^ i < 2 ^ 32 :=
      Nat.lt_of_lt_of_le (Nat.mul_lt_mul_of_pos_right (hlt b) (Nat.two_pow_pos i))
        (Nat.mul_le_mul_left (2 ^ 8) hpow)
    rw [UInt32.toNat_shiftLeft, UInt8.toNat_toUInt32, hmod, Nat.shiftLeft_eq,
      Nat.mod_eq_of_lt hbig]
  have h₀ := hlt b₀
  have h₁ := hlt b₁
  have h₂ := hlt b₂
  -- from the front, each byte comes in below the ones before it
  have h01 : b₀.toNat <<< 24 ||| b₁.toNat <<< 16 = (b₀.toNat * 2 ^ 8 + b₁.toNat) <<< 16 := by
    rw [shiftLeft_or (by rw [Nat.shiftLeft_eq]; omega), Nat.shiftLeft_eq, Nat.shiftLeft_eq]
    omega
  have h012 : (b₀.toNat * 2 ^ 8 + b₁.toNat) <<< 16 ||| b₂.toNat <<< 8 =
      ((b₀.toNat * 2 ^ 8 + b₁.toNat) * 2 ^ 8 + b₂.toNat) <<< 8 := by
    rw [shiftLeft_or (by rw [Nat.shiftLeft_eq]; omega), Nat.shiftLeft_eq, Nat.shiftLeft_eq]
    omega
  have hs₀ : (b₀.toUInt32 <<< 24).toNat = b₀.toNat <<< 24 := hshift b₀ 24 (by decide) (by decide)
  have hs₁ : (b₁.toUInt32 <<< 16).toNat = b₁.toNat <<< 16 := hshift b₁ 16 (by decide) (by decide)
  have hs₂ : (b₂.toUInt32 <<< 8).toNat = b₂.toNat <<< 8 := hshift b₂ 8 (by decide) (by decide)
  rw [UInt32.toNat_or, UInt32.toNat_or, UInt32.toNat_or, hs₀, hs₁, hs₂, UInt8.toNat_toUInt32, h01,
    h012, shiftLeft_or (hlt b₃)]
  simp [ofBe]

theorem toNat_shift64 {v : UInt64} (hv : v.toNat < 256 ^ 7) (b : UInt8) :
    (v <<< 8 ||| b.toUInt64).toNat = v.toNat * 256 + b.toNat := by
  have hshift : (v <<< 8).toNat = v.toNat <<< 8 := by
    rw [UInt64.toNat_shiftLeft]
    show v.toNat <<< 8 % 2 ^ 64 = v.toNat <<< 8
    rw [Nat.shiftLeft_eq]
    omega
  rw [UInt64.toNat_or, hshift, UInt8.toNat_toUInt64]
  exact shiftLeft_or (i := 8) b.toNat_lt _

end Endian
end Reticulum
