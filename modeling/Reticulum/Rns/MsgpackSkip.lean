import Reticulum.Lib.MsgpackValues
import Reticulum.Rns.MsgpackElems

/-!
# What `skip_value` accepts

Every read that succeeds has read one of the forms of the format. `skip_value` ends on every buffer,
and takes exactly one value from those that start with one.
-/

namespace Reticulum
namespace Msgpack
open Endian MsgpackFormat

namespace Reader

/-- What was read of `r` before `r'` was left. -/
def Took (r : Reader) (bs : Bytes) (r' : Reader) : Prop := r.rest = bs ++ r'.rest

theorem Took.trans {r r₁ r₂ : Reader} {a b : Bytes} (h : r.Took a r₁) (h' : r₁.Took b r₂) :
    r.Took (a ++ b) r₂ := by
  unfold Took at h h' ⊢
  rw [h, h', List.append_assoc]

theorem took_of_readU8 {r r' : Reader} {t : UInt8} (h : r.readU8 = some (t, r')) :
    r.Took [t] r' := by
  obtain ⟨rest⟩ := r
  cases rest with
  | nil => cases h
  | cons b rest =>
    cases h
    rfl

theorem took_of_take {r r' : Reader} {n : Nat} {bs : Bytes} (h : r.take n = some (bs, r')) :
    bs.length = n ∧ r.Took bs r' := by
  unfold take at h
  split at h
  · rename_i hle
    cases h
    exact ⟨List.length_take_of_le hle, (List.take_append_drop n r.rest).symm⟩
  · cases h

theorem took_of_readBe {r r' : Reader} {k n : Nat} (h : r.readBe k = some (n, r')) :
    n < 256 ^ k ∧ r.Took (toBe k n) r' := by
  obtain ⟨⟨bs, r₁⟩, ht, h⟩ := Option.bind_eq_some_iff.mp h
  cases h
  obtain ⟨rfl, htook⟩ := took_of_take ht
  exact ⟨ofBe_lt bs, (toBe_ofBe bs).symm ▸ htook⟩

/-- A read starts with its tag. -/
theorem took_of_tag {α : Type} {r r' : Reader} {f : UInt8 × Reader → Option (α × Reader)} {v : α}
    (h : r.readU8.bind f = some (v, r')) : ∃ t r₁, r.Took [t] r₁ ∧ f (t, r₁) = some (v, r') := by
  obtain ⟨⟨t, r₁⟩, ht, h⟩ := Option.bind_eq_some_iff.mp h
  exact ⟨t, r₁, took_of_readU8 ht, h⟩

theorem posFix_of_tag : ∀ t : UInt8, t < 0x80 → t.toNat < 128 ∧ UInt8.ofNat t.toNat = t :=
  forall_byte (by decide +kernel)

theorem negFix_of_tag : ∀ t : UInt8, 0xe0 ≤ t → t.toNat - 0xe0 < 32 ∧
    UInt8.ofNat (0xe0 + (t.toNat - 0xe0)) = t ∧
    (t.toNat : Int).bmod (256 ^ 1) = (t.toNat - 0xe0 : Nat) - 32 :=
  forall_byte (by decide +kernel)

theorem fixstr_of_tag : ∀ t : UInt8, t &&& 0xe0 = 0xa0 → (t &&& 0x1f).toNat < 32 ∧
    UInt8.ofNat (0xa0 + (t &&& 0x1f).toNat) = t :=
  forall_byte (by decide +kernel)

theorem halves_of_tag : ∀ t : UInt8, (t &&& 0x0f).toNat < 16 ∧ (t &&& 0xf0) ||| (t &&& 0x0f) = t :=
  forall_byte (by decide +kernel)

theorem form_of_readUint {r r' : Reader} {v : Nat} (h : r.readUint = some (v, r')) :
    ∃ bs, IntForm v bs ∧ r.Took bs r' := by
  obtain ⟨t, r₁, ht, h⟩ := took_of_tag h
  dsimp only at h
  have hwide : ∀ {k : Nat}, r₁.readBe k = some (v, r') →
      v < 256 ^ k ∧ r.Took (t :: toBe k v) r' := by
    intro k hk
    obtain ⟨hlt, htook⟩ := took_of_readBe hk
    exact ⟨hlt, ht.trans htook⟩
  split at h
  · rename_i hfix
    cases h
    obtain ⟨hlt, htag⟩ := posFix_of_tag t hfix
    exact ⟨_, .posFix hlt, by rw [htag]; exact ht⟩
  split at h
  · rename_i htag
    subst htag
    obtain ⟨hlt, htook⟩ := hwide h
    exact ⟨_, .uint8 hlt, htook⟩
  split at h
  · rename_i htag
    subst htag
    obtain ⟨hlt, htook⟩ := hwide h
    exact ⟨_, .uint16 hlt, htook⟩
  split at h
  · rename_i htag
    subst htag
    obtain ⟨hlt, htook⟩ := hwide h
    exact ⟨_, .uint32 hlt, htook⟩
  split at h
  · rename_i htag
    subst htag
    obtain ⟨hlt, htook⟩ := hwide h
    exact ⟨_, .uint64 hlt, htook⟩
  · cases h

/-- The cast to a signed type loses nothing of the bytes. -/
theorem signed_of_readBe {r r' : Reader} {k m : Nat} {v : Int} (hm : 256 ^ k = 2 * m)
    (h : (r.readBe k).map (signed k) = some (v, r')) :
    -(m : Int) ≤ v ∧ v < m ∧ r.Took (toBe k (v % (256 ^ k : Nat)).toNat) r' := by
  obtain ⟨⟨n, r₁⟩, hn, hv⟩ := Option.map_eq_some_iff.mp h
  obtain ⟨hlt, htook⟩ := took_of_readBe hn
  have hv : ((n : Int).bmod (256 ^ k), r₁) = (v, r') := hv
  obtain ⟨rfl, rfl⟩ := Prod.mk.inj hv
  have hback : (((n : Int).bmod (256 ^ k)) % (256 ^ k : Nat)).toNat = n := by
    rw [Int.bmod_emod, ← Int.natCast_mod, Int.toNat_natCast, Nat.mod_eq_of_lt hlt]
  rw [hback, hm]
  rw [hm] at hlt
  refine ⟨?_, ?_, htook⟩
  · have hlo := Int.le_bmod (x := (n : Int)) (m := 2 * m) (by omega)
    omega
  · have hhi := Int.bmod_lt (x := (n : Int)) (m := 2 * m) (by omega)
    omega

theorem form_of_readInt {r r' : Reader} {v : Int} (h : r.readInt = some (v, r')) :
    ∃ bs, IntForm v bs ∧ r.Took bs r' := by
  obtain ⟨t, r₁, ht, h⟩ := took_of_tag h
  dsimp only at h
  have hwide : ∀ {k : Nat}, (r₁.readBe k).map unsigned = some (v, r') →
      ∃ n : Nat, v = n ∧ n < 256 ^ k ∧ r.Took (t :: toBe k n) r' := by
    intro k hk
    obtain ⟨⟨n, r₂⟩, hn, hv⟩ := Option.map_eq_some_iff.mp hk
    obtain ⟨hlt, htook⟩ := took_of_readBe hn
    cases hv
    exact ⟨n, rfl, hlt, ht.trans htook⟩
  split at h
  · rename_i hfix
    cases h
    obtain ⟨hlt, htag⟩ := posFix_of_tag t hfix
    exact ⟨_, .posFix hlt, by rw [htag]; exact ht⟩
  split at h
  · rename_i hfix
    obtain ⟨hlt, htag, hval⟩ := negFix_of_tag t hfix
    rw [hval] at h
    obtain ⟨rfl, rfl⟩ := Prod.mk.inj (Option.some.inj h)
    exact ⟨_, .negFix hlt, by rw [htag]; exact ht⟩
  split at h
  · rename_i htag
    subst htag
    obtain ⟨n, rfl, hlt, htook⟩ := hwide h
    exact ⟨_, .uint8 hlt, htook⟩
  split at h
  · rename_i htag
    subst htag
    obtain ⟨n, rfl, hlt, htook⟩ := hwide h
    exact ⟨_, .uint16 hlt, htook⟩
  split at h
  · rename_i htag
    subst htag
    obtain ⟨n, rfl, hlt, htook⟩ := hwide h
    exact ⟨_, .uint32 hlt, htook⟩
  split at h
  · rename_i htag
    subst htag
    obtain ⟨⟨n, r₂⟩, hn, hv⟩ := Option.bind_eq_some_iff.mp h
    obtain ⟨hlt, htook⟩ := took_of_readBe hn
    dsimp only at hv
    split at hv
    · cases hv
    · cases hv
      exact ⟨_, .uint64 hlt, ht.trans htook⟩
  split at h
  · rename_i htag
    subst htag
    obtain ⟨hlo, hhi, htook⟩ := signed_of_readBe (m := 2 ^ 7) (by decide) h
    exact ⟨_, .int8 (by simpa using hlo) (by simpa using hhi), ht.trans htook⟩
  split at h
  · rename_i htag
    subst htag
    obtain ⟨hlo, hhi, htook⟩ := signed_of_readBe (m := 2 ^ 15) (by decide) h
    exact ⟨_, .int16 (by simpa using hlo) (by simpa using hhi), ht.trans htook⟩
  split at h
  · rename_i htag
    subst htag
    obtain ⟨hlo, hhi, htook⟩ := signed_of_readBe (m := 2 ^ 31) (by decide) h
    exact ⟨_, .int32 (by simpa using hlo) (by simpa using hhi), ht.trans htook⟩
  split at h
  · rename_i htag
    subst htag
    obtain ⟨hlo, hhi, htook⟩ := signed_of_readBe (m := 2 ^ 63) (by decide) h
    exact ⟨_, .int64 (by simpa using hlo) (by simpa using hhi), ht.trans htook⟩
  · cases h

/-- A length of `k` bytes, and the bytes it counts. -/
theorem took_of_counted {r r' : Reader} {k : Nat} {bs : Bytes}
    (h : ((r.readBe k).bind fun v => v.2.take v.1) = some (bs, r')) :
    bs.length < 256 ^ k ∧ r.Took (toBe k bs.length ++ bs) r' := by
  obtain ⟨⟨n, r₁⟩, hn, h⟩ := Option.bind_eq_some_iff.mp h
  obtain ⟨hlt, htook⟩ := took_of_readBe hn
  obtain ⟨rfl, htook'⟩ := took_of_take h
  exact ⟨hlt, htook.trans htook'⟩

theorem form_of_readStr {r r' : Reader} {s : Bytes} (h : r.readStr = some (s, r')) :
    ∃ bs, StrForm s bs ∧ r.Took bs r' := by
  obtain ⟨t, r₁, ht, h⟩ := took_of_tag h
  dsimp only at h
  split at h
  · rename_i hfix
    obtain ⟨hlt, htag⟩ := fixstr_of_tag t hfix
    obtain ⟨hlen, htook⟩ := took_of_take h
    rw [← hlen] at hlt htag
    exact ⟨_, .fixstr hlt, by rw [htag]; exact ht.trans htook⟩
  split at h
  · rename_i htag
    subst htag
    obtain ⟨hlt, htook⟩ := took_of_counted h
    exact ⟨_, .str8 hlt, ht.trans htook⟩
  split at h
  · rename_i htag
    subst htag
    obtain ⟨hlt, htook⟩ := took_of_counted h
    exact ⟨_, .str16 hlt, ht.trans htook⟩
  · cases h

theorem form_of_readBin {r r' : Reader} {b : Bytes} (h : r.readBin = some (b, r')) :
    ∃ bs, BinForm b bs ∧ r.Took bs r' := by
  obtain ⟨t, r₁, ht, h⟩ := took_of_tag h
  dsimp only at h
  split at h
  · rename_i htag
    subst htag
    obtain ⟨hlt, htook⟩ := took_of_counted h
    exact ⟨_, .bin8 hlt, ht.trans htook⟩
  split at h
  · rename_i htag
    subst htag
    obtain ⟨hlt, htook⟩ := took_of_counted h
    exact ⟨_, .bin16 hlt, ht.trans htook⟩
  · cases h

theorem form_of_readHeader {fix : Nat} {tag16 tag32 : UInt8} {type : ElemType} {r r' : Reader}
    {n : Nat} (htags : HeadTags fix tag16 tag32 type)
    (h : readHeader (UInt8.ofNat fix) tag16 tag32 r = some (n, r')) :
    ∃ bs, Head fix tag16 tag32 n bs ∧ r.Took bs r' := by
  obtain ⟨t, r₁, ht, hrest⟩ := took_of_tag h
  dsimp only at hrest
  split at hrest
  · rename_i hfix
    cases hrest
    obtain ⟨hlt, hhalves⟩ := halves_of_tag t
    have htag : UInt8.ofNat (fix + (t &&& 0x0f).toNat) = t := by
      rw [← htags.fix_or _ hlt, UInt8.ofNat_toNat, ← hfix, hhalves]
    exact ⟨_, .fix hlt, by rw [htag]; exact ht⟩
  split at hrest
  · rename_i htag
    subst htag
    obtain ⟨hlt, htook⟩ := took_of_readBe hrest
    exact ⟨_, .wide16 hlt, ht.trans htook⟩
  split at hrest
  · rename_i htag
    subst htag
    obtain ⟨hlt, htook⟩ := took_of_readBe hrest
    exact ⟨_, .wide32 hlt, ht.trans htook⟩
  · cases hrest

/-- The value is not kept: a float that is read was one of the two kinds. -/
theorem form_of_readFloat32 {r r' : Reader} {v : UInt32} (h : r.readFloat32 = some (v, r')) :
    (∃ bits : UInt32, r.Took (0xca :: toBe 4 bits.toNat) r') ∨
    ∃ bits : UInt64, r.Took (0xcb :: toBe 8 bits.toNat) r' := by
  obtain ⟨t, r₁, ht, h⟩ := took_of_tag h
  dsimp only at h
  split at h
  · rename_i htag
    subst htag
    obtain ⟨⟨n, r₂⟩, hn, hv⟩ := Option.bind_eq_some_iff.mp h
    obtain ⟨hlt, htook⟩ := took_of_readBe hn
    cases hv
    refine .inl ⟨UInt32.ofNat n, ?_⟩
    rw [UInt32.toNat_ofNat', Nat.mod_eq_of_lt (by omega)]
    exact ht.trans htook
  split at h
  · rename_i htag
    subst htag
    obtain ⟨⟨n, r₂⟩, hn, hv⟩ := Option.bind_eq_some_iff.mp h
    obtain ⟨hlt, htook⟩ := took_of_readBe hn
    cases hv
    refine .inr ⟨UInt64.ofNat n, ?_⟩
    rw [UInt64.toNat_ofNat', Nat.mod_eq_of_lt (by omega)]
    exact ht.trans htook
  · cases h

theorem took_of_readNil {r r' : Reader} (h : r.readNil = some r') : r.Took [0xc0] r' := by
  obtain ⟨⟨t, r₁⟩, ht, h⟩ := Option.bind_eq_some_iff.mp h
  dsimp only at h
  split at h
  · rename_i htag
    subst htag
    cases h
    exact took_of_readU8 ht
  · cases h

theorem took_of_readBool {r r' : Reader} {b : Bool} (h : r.readBool = some (b, r')) :
    r.Took [if b then 0xc3 else 0xc2] r' := by
  obtain ⟨t, r₁, ht, h⟩ := took_of_tag h
  dsimp only at h
  split at h
  · rename_i htag
    subst htag
    cases h
    exact ht
  split at h
  · rename_i htag
    subst htag
    cases h
    exact ht
  · cases h

/-! ### The runs of `skip_value` -/

/-- What is being run: a call of `skip_value`, or one of its loops with `n` turns to go. -/
inductive SkipTask where
  | value
  | elements (n : Nat)
  | pairs (n : Nat)

/-- A run of the source that ends, with the reader it leaves or `none` where it returns false. Every
call of `skip_value` inside it is a run of its own, so a run without an end has no derivation. -/
inductive Skips : SkipTask → Reader → Option Reader → Prop
  | leaf {r : Reader} (ha : r.peekType ≠ .array) (hm : r.peekType ≠ .map) :
    -- the other types call no `skip_value`
    Skips .value r (skipBody (fun _ => none) r)
  | noArray {r : Reader} (ht : r.peekType = .array) (hn : r.readArrayHeader = none) :
    Skips .value r none
  | array {r r₁ : Reader} {n : Nat} {o : Option Reader} (ht : r.peekType = .array)
    (hn : r.readArrayHeader = some (n, r₁)) (h : Skips (.elements n) r₁ o) : Skips .value r o
  | noMap {r : Reader} (ht : r.peekType = .map) (hn : r.readMapHeader = none) :
    Skips .value r none
  | map {r r₁ : Reader} {n : Nat} {o : Option Reader} (ht : r.peekType = .map)
    (hn : r.readMapHeader = some (n, r₁)) (h : Skips (.pairs n) r₁ o) : Skips .value r o
  | elementsDone {r : Reader} : Skips (.elements 0) r (some r)
  | elementFails {r : Reader} {n : Nat} (h : Skips .value r none) :
    Skips (.elements (n + 1)) r none
  | element {r r₁ : Reader} {n : Nat} {o : Option Reader} (h : Skips .value r (some r₁))
    (rest : Skips (.elements n) r₁ o) : Skips (.elements (n + 1)) r o
  | pairsDone {r : Reader} : Skips (.pairs 0) r (some r)
  | keyFails {r : Reader} {n : Nat} (h : Skips .value r none) : Skips (.pairs (n + 1)) r none
  | valueFails {r r₁ : Reader} {n : Nat} (hk : Skips .value r (some r₁))
    (hv : Skips .value r₁ none) : Skips (.pairs (n + 1)) r none
  | pair {r r₁ r₂ : Reader} {n : Nat} {o : Option Reader} (hk : Skips .value r (some r₁))
    (hv : Skips .value r₁ (some r₂)) (rest : Skips (.pairs n) r₂ o) : Skips (.pairs (n + 1)) r o

/-- What the model says about a run. -/
def SkipTask.result : SkipTask → Reader → Option Reader
  | .value, r => skipValue r
  | .elements n, r => times skipValue n r
  | .pairs n, r => times (fun r => (skipValue r).bind skipValue) n r

theorem skipBody_of_leaf {r : Reader} (ha : r.peekType ≠ .array) (hm : r.peekType ≠ .map)
    (skip skip' : Reader → Option Reader) : skipBody skip r = skipBody skip' r := by
  unfold skipBody
  split
  case h_9 ht => exact absurd ht ha
  case h_10 ht => exact absurd ht hm
  all_goals rfl

theorem skipBody_of_array {r : Reader} (ht : r.peekType = .array)
    (skip : Reader → Option Reader) :
    skipBody skip r = r.readArrayHeader.bind fun v => times skip v.1 v.2 := by
  rw [skipBody, ht]

theorem skipBody_of_map {r : Reader} (ht : r.peekType = .map) (skip : Reader → Option Reader) :
    skipBody skip r =
      r.readMapHeader.bind fun v => times (fun r => (skip r).bind skip) v.1 v.2 := by
  rw [skipBody, ht]

theorem Skips.result {task : SkipTask} {r : Reader} {o : Option Reader} (h : Skips task r o) :
    o = task.result r := by
  induction h with
  | leaf ha hm => exact (skipBody_of_leaf ha hm _ _).trans (skipValue_eq _).symm
  | noArray ht hn =>
    rw [SkipTask.result, skipValue_eq, skipBody_of_array ht, hn]
    rfl
  | array ht hn h ih =>
    rw [SkipTask.result, skipValue_eq, skipBody_of_array ht, hn]
    exact ih
  | noMap ht hn =>
    rw [SkipTask.result, skipValue_eq, skipBody_of_map ht, hn]
    rfl
  | map ht hn h ih =>
    rw [SkipTask.result, skipValue_eq, skipBody_of_map ht, hn]
    exact ih
  | elementsDone => rfl
  | elementFails h ih =>
    have hr : skipValue _ = none := ih.symm
    rw [SkipTask.result, times, hr]
    rfl
  | element h rest ih ihrest =>
    have hr : skipValue _ = some _ := ih.symm
    rw [SkipTask.result, times, hr]
    exact ihrest
  | pairsDone => rfl
  | keyFails h ih =>
    have hr : skipValue _ = none := ih.symm
    rw [SkipTask.result, times, hr]
    rfl
  | valueFails hk hv ihk ihv =>
    have hr : skipValue _ = some _ := ihk.symm
    have hr' : skipValue _ = none := ihv.symm
    rw [SkipTask.result, times, hr, Option.bind_some, hr']
    rfl
  | pair hk hv rest ihk ihv ihrest =>
    have hr : skipValue _ = some _ := ihk.symm
    have hr' : skipValue _ = some _ := ihv.symm
    rw [SkipTask.result, times, hr, Option.bind_some, hr', Option.bind_some]
    exact ihrest

/-- The turns of a loop end if the calls they make do. Each turn leaves less to read, so the loop
ends however large the count in its header is. -/
theorem skips_elements {m : Nat} (h : ∀ r : Reader, r.rest.length ≤ m → ∃ o, Skips .value r o)
    (n : Nat) {r : Reader} (hr : r.rest.length ≤ m) : ∃ o, Skips (.elements n) r o := by
  induction n generalizing r with
  | zero => exact ⟨_, .elementsDone⟩
  | succ n ih =>
    obtain ⟨o, ho⟩ := h r hr
    cases o with
    | none => exact ⟨_, .elementFails ho⟩
    | some r₁ =>
      have hlt := skipValue_lt ho.result.symm
      obtain ⟨o', ho'⟩ := ih (r := r₁) (by omega)
      exact ⟨o', .element ho ho'⟩

theorem skips_pairs {m : Nat} (h : ∀ r : Reader, r.rest.length ≤ m → ∃ o, Skips .value r o)
    (n : Nat) {r : Reader} (hr : r.rest.length ≤ m) : ∃ o, Skips (.pairs n) r o := by
  induction n generalizing r with
  | zero => exact ⟨_, .pairsDone⟩
  | succ n ih =>
    obtain ⟨o, hk⟩ := h r hr
    cases o with
    | none => exact ⟨_, .keyFails hk⟩
    | some r₁ =>
      have hlt := skipValue_lt hk.result.symm
      obtain ⟨o', hv⟩ := h r₁ (by omega)
      cases o' with
      | none => exact ⟨_, .valueFails hk hv⟩
      | some r₂ =>
        have hlt' := skipValue_lt hv.result.symm
        obtain ⟨o'', ho''⟩ := ih (r := r₂) (by omega)
        exact ⟨o'', .pair hk hv ho''⟩

theorem skips_value_of_lt {m : Nat} (h : ∀ r : Reader, r.rest.length < m → ∃ o, Skips .value r o)
    {r : Reader} (hr : r.rest.length ≤ m) : ∃ o, Skips .value r o := by
  by_cases ha : r.peekType = .array
  · cases hn : r.readArrayHeader with
    | none => exact ⟨_, .noArray ha hn⟩
    | some v =>
      have hlt : v.2.rest.length < r.rest.length := readHeader_lt hn
      obtain ⟨o, ho⟩ := skips_elements (m := v.2.rest.length) (fun r₁ hr₁ => h r₁ (by omega)) v.1
        le_rfl
      exact ⟨o, .array ha hn ho⟩
  by_cases hm : r.peekType = .map
  · cases hn : r.readMapHeader with
    | none => exact ⟨_, .noMap hm hn⟩
    | some v =>
      have hlt : v.2.rest.length < r.rest.length := readHeader_lt hn
      obtain ⟨o, ho⟩ := skips_pairs (m := v.2.rest.length) (fun r₁ hr₁ => h r₁ (by omega)) v.1
        le_rfl
      exact ⟨o, .map hm hn ho⟩
  · exact ⟨_, .leaf ha hm⟩

theorem skipValue_ends (r : Reader) : Skips .value r (skipValue r) := by
  have hends : ∀ m, ∀ r : Reader, r.rest.length ≤ m → ∃ o, Skips .value r o := by
    intro m
    induction m with
    | zero =>
      intro r hr
      exact skips_value_of_lt (fun r₁ hr₁ => absurd hr₁ (Nat.not_lt_zero _)) hr
    | succ m ih =>
      intro r hr
      exact skips_value_of_lt (fun r₁ hr₁ => ih r₁ (by omega)) hr
  obtain ⟨o, ho⟩ := hends _ r le_rfl
  have hresult : o = skipValue r := ho.result
  exact hresult ▸ ho

/-! ### One value each -/

theorem encodes_of_times {m : Nat} (h : ∀ r r' : Reader, r.rest.length ≤ m →
      skipValue r = some r' → ∃ v bs, Encodes [v] bs ∧ r.Took bs r')
    {n : Nat} {r r' : Reader} (hr : r.rest.length ≤ m) (ht : times skipValue n r = some r') :
    ∃ vs bs, vs.length = n ∧ Encodes vs bs ∧ r.Took bs r' := by
  induction n generalizing r with
  | zero =>
    cases ht
    exact ⟨[], [], rfl, .done, rfl⟩
  | succ n ih =>
    obtain ⟨r₁, hr₁, ht⟩ := Option.bind_eq_some_iff.mp ht
    have hlt := skipValue_lt hr₁
    obtain ⟨v, a, hv, hta⟩ := h r r₁ hr hr₁
    obtain ⟨vs, b, hlen, hvs, htb⟩ := ih (r := r₁) (by omega) ht
    exact ⟨v :: vs, a ++ b, by rw [List.length_cons, hlen], hv.append hvs, hta.trans htb⟩

theorem Took.append_nil {r r' : Reader} {bs : Bytes} (h : r.Took bs r') : r.Took (bs ++ []) r' := by
  rwa [List.append_nil]

theorem encodes_of_readFloat32 {r r' : Reader} {v : UInt32} (h : r.readFloat32 = some (v, r')) :
    ∃ v bs, Encodes [v] bs ∧ r.Took bs r' := by
  rcases form_of_readFloat32 h with ⟨bits, htook⟩ | ⟨bits, htook⟩
  · exact ⟨.float32 bits, _, .float32 bits .done, htook.append_nil⟩
  · exact ⟨.float64 bits, _, .float64 bits .done, htook.append_nil⟩

/-- What `skip_value` has taken when it returns true is one value. -/
theorem encodes_of_skipValue {r r' : Reader} (h : r.skipValue = some r') :
    ∃ v bs, Encodes [v] bs ∧ r.Took bs r' := by
  induction hm : r.rest.length using Nat.strong_induction_on generalizing r r' with
  | _ m ih =>
    have hinner : ∀ r₁ r₂ : Reader, r₁.rest.length < r.rest.length → skipValue r₁ = some r₂ →
        ∃ v bs, Encodes [v] bs ∧ r₁.Took bs r₂ := by
      intro r₁ r₂ hlt h₁
      exact ih _ (hm ▸ hlt) h₁ rfl
    have hmap : ∀ {α : Type} {o : Option (α × Reader)}, o.map Prod.snd = some r' →
        ∃ v, o = some (v, r') := by
      intro α o ho
      obtain ⟨⟨v, r₁⟩, hv, hr⟩ := Option.map_eq_some_iff.mp ho
      cases hr
      exact ⟨v, hv⟩
    rw [skipValue_eq, skipBody] at h
    split at h
    case h_1 => exact ⟨.nil, _, .nil .done, took_of_readNil h⟩
    case h_2 =>
      obtain ⟨v, hv⟩ := hmap h
      exact ⟨.bool v, _, .bool v .done, took_of_readBool hv⟩
    case h_3 =>
      obtain ⟨v, hv⟩ := hmap h
      obtain ⟨bs, hform, htook⟩ := form_of_readUint hv
      exact ⟨.int v, _, .int hform .done, htook.append_nil⟩
    case h_4 =>
      obtain ⟨v, hv⟩ := hmap h
      obtain ⟨bs, hform, htook⟩ := form_of_readInt hv
      exact ⟨.int v, _, .int hform .done, htook.append_nil⟩
    case h_5 =>
      obtain ⟨v, hv⟩ := hmap h
      exact encodes_of_readFloat32 hv
    case h_6 =>
      obtain ⟨v, hv⟩ := hmap h
      exact encodes_of_readFloat32 hv
    case h_7 =>
      obtain ⟨v, hv⟩ := hmap h
      obtain ⟨bs, hform, htook⟩ := form_of_readStr hv
      exact ⟨.str v, _, .str hform .done, htook.append_nil⟩
    case h_8 =>
      obtain ⟨v, hv⟩ := hmap h
      obtain ⟨bs, hform, htook⟩ := form_of_readBin hv
      exact ⟨.bin v, _, .bin hform .done, htook.append_nil⟩
    case h_9 =>
      obtain ⟨⟨n, r₁⟩, hn, hloop⟩ := Option.bind_eq_some_iff.mp h
      have hlt := readHeader_lt hn
      obtain ⟨head, hform, hthead⟩ := form_of_readHeader arrayTags hn
      obtain ⟨items, bs, rfl, hitems, htook⟩ := encodes_of_times (m := r₁.rest.length)
        (fun r₂ r₃ hle => hinner r₂ r₃ (by omega)) le_rfl hloop
      exact ⟨.array items, _, .array hform hitems .done, hthead.trans (by simpa using htook)⟩
    case h_10 =>
      obtain ⟨⟨n, r₁⟩, hn, hloop⟩ := Option.bind_eq_some_iff.mp h
      have hlt := readHeader_lt hn
      obtain ⟨head, hform, hthead⟩ := form_of_readHeader mapTags hn
      -- a turn of this loop skips a key and a value
      rw [times_two] at hloop
      obtain ⟨vs, bs, hlen, hvs, htook⟩ := encodes_of_times (m := r₁.rest.length)
        (fun r₂ r₃ hle => hinner r₂ r₃ (by omega)) le_rfl hloop
      obtain ⟨pairs, rfl, rfl⟩ := exists_alternating hlen
      exact ⟨.map pairs, _, .map hform hvs .done, hthead.trans (by simpa using htook)⟩
    case h_11 => cases h

/-- `skip_value` ends on every buffer; it moves over any encoding of a value, whatever follows; and
what it moves over is the encoding of a value. -/
theorem skipValue_exact :
    (∀ v bs t, Encodes [v] bs → skipValue ⟨bs ++ t⟩ = some ⟨t⟩) ∧
    (∀ r, Skips .value r (skipValue r)) ∧ (∀ r o, Skips .value r o → o = skipValue r) ∧
    ∀ r r', skipValue r = some r' → ∃ v bs, Encodes [v] bs ∧ r.rest = bs ++ r'.rest := by
  refine ⟨?_, skipValue_ends, fun r o h => h.result, fun r r' h => encodes_of_skipValue h⟩
  intro v bs t h
  exact skip_elem h.elems t

/-- An array with a 32-bit count around a map with a string in it. -/
theorem skipValue_exact_nested : ∃ v, Encodes [v] [0xdd, 0, 0, 0, 1, 0x81, 1, 0xa1, 97] ∧
    ∀ t, skipValue ⟨[0xdd, 0, 0, 0, 1, 0x81, 1, 0xa1, 97] ++ t⟩ = some ⟨t⟩ := by
  obtain ⟨hforward, -, -, hback⟩ := skipValue_exact
  obtain ⟨v, bs, hv, hbs⟩ := hback ⟨[0xdd, 0, 0, 0, 1, 0x81, 1, 0xa1, 97]⟩ ⟨[]⟩ (by decide)
  have hbs : [0xdd, 0, 0, 0, 1, 0x81, 1, 0xa1, 97] = bs := hbs.trans (List.append_nil bs)
  subst hbs
  exact ⟨v, hv, fun t => hforward v _ t hv⟩

end Reader
end Msgpack
end Reticulum
