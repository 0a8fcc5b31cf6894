import Reticulum.Rns.Msgpack

/-!
# Reading what the format allows

Every form of an integer, string, header or element that the format has is read back, and the
reader is left at what follows it. What the writer appends is such a form.
-/

namespace Reticulum
namespace Msgpack
open Endian MsgpackFormat

namespace Reader

@[simp] theorem readU8_cons (b : UInt8) (t : Bytes) : readU8 ⟨b :: t⟩ = some (b, ⟨t⟩) := rfl

@[simp] theorem peekType_cons (b : UInt8) (t : Bytes) : peekType ⟨b :: t⟩ = .ofTag b := rfl

theorem take_append {n : Nat} {bs : Bytes} (t : Bytes) (h : bs.length = n) :
    take ⟨bs ++ t⟩ n = some (bs, ⟨t⟩) := by
  have hle : n ≤ (bs ++ t).length := by
    rw [List.length_append]
    omega
  rw [take, if_pos hle]
  simp [← h]

theorem readBe_append {k : Nat} {bs : Bytes} (t : Bytes) (h : bs.length = k) :
    readBe ⟨bs ++ t⟩ k = some (ofBe bs, ⟨t⟩) := by
  simp [readBe, take_append t h]

theorem readBe_toBe {k n : Nat} (t : Bytes) (h : n < 256 ^ k) :
    readBe ⟨toBe k n ++ t⟩ k = some (n, ⟨t⟩) := by
  rw [readBe_append t (length_toBe k n), ofBe_toBe k n h]

theorem bmod_emod_toNat {v : Int} {m : Nat} (hlo : -(m : Int) ≤ v) (hhi : v < m) :
    (((v % (2 * m : Nat)).toNat : Nat) : Int).bmod (2 * m) = v := by
  have hm : (0 : Int) < (2 * m : Nat) := by omega
  rw [Int.toNat_of_nonneg (Int.emod_nonneg v (by omega)), Int.emod_bmod]
  apply Int.bmod_eq_of_le
  · omega
  · omega

theorem readInt_signed {k m : Nat} {v : Int} (t : Bytes) (hm : 256 ^ k = 2 * m)
    (hlo : -(m : Int) ≤ v) (hhi : v < m) :
    (readBe ⟨toBe k (v % (256 ^ k : Nat)).toNat ++ t⟩ k).map (signed k) = some (v, ⟨t⟩) := by
  have hlt : (v % (256 ^ k : Nat)).toNat < 256 ^ k := by
    have hpos : (0 : Int) < (256 ^ k : Nat) := by omega
    have h0 := Int.emod_nonneg v (show ((256 ^ k : Nat) : Int) ≠ 0 by omega)
    have h1 := Int.emod_lt_of_pos v hpos
    omega
  rw [readBe_toBe t hlt, Option.map_some]
  have hb := bmod_emod_toNat hlo hhi
  rw [← hm] at hb
  show some ((((v % (256 ^ k : Nat)).toNat : Nat) : Int).bmod (256 ^ k), (⟨t⟩ : Reader)) = _
  rw [hb]

theorem readInt_form {v : Int} {bs : Bytes} (t : Bytes) (h : IntForm v bs) (hv : v < 2 ^ 63) :
    readInt ⟨bs ++ t⟩ = some (v, ⟨t⟩) := by
  cases h with
  | @posFix n hn =>
    have hlt : UInt8.ofNat n < 0x80 := by
      rw [UInt8.lt_iff_toNat_lt, UInt8.toNat_ofNat']
      show n % 256 < 128
      omega
    have hn' : (UInt8.ofNat n).toNat = n := by
      rw [UInt8.toNat_ofNat']
      omega
    simp [readInt, hlt, hn']
  | @negFix n hn =>
    have hn' : (UInt8.ofNat (0xe0 + n)).toNat = 0xe0 + n := by
      rw [UInt8.toNat_ofNat']
      omega
    have hge : (0xe0 : UInt8) ≤ UInt8.ofNat (0xe0 + n) := by
      rw [UInt8.le_iff_toNat_le, hn']
      show 224 ≤ 224 + n
      omega
    have hnlt : ¬UInt8.ofNat (0xe0 + n) < 0x80 := by
      rw [UInt8.lt_iff_toNat_lt, hn']
      show ¬224 + n < 128
      omega
    have hb : ((0xe0 + n : Nat) : Int).bmod 256 = n - 32 := by
      rw [Int.bmod_def]
      omega
    simp only [readInt, List.cons_append, List.nil_append, readU8_cons, Option.bind_eq_bind,
      Option.bind_some, if_neg hnlt, if_pos hge, hn', Nat.pow_one, hb]
  | uint8 hn => simp [readInt, readBe_toBe t hn, unsigned]
  | uint16 hn => simp [readInt, readBe_toBe t hn, unsigned]
  | uint32 hn => simp [readInt, readBe_toBe t hn, unsigned]
  | @uint64 n hn =>
    have hmax : n ≤ 9223372036854775807 := by omega
    simpa [readInt, readBe_toBe t hn] using hmax
  | int8 hlo hhi =>
    have hr := readInt_signed (k := 1) (m := 2 ^ 7) t (by decide) (by simpa using hlo)
      (by simpa using hhi)
    simpa [readInt] using hr
  | int16 hlo hhi =>
    have hr := readInt_signed (k := 2) (m := 2 ^ 15) t (by decide) (by simpa using hlo)
      (by simpa using hhi)
    simpa [readInt] using hr
  | int32 hlo hhi =>
    have hr := readInt_signed (k := 4) (m := 2 ^ 31) t (by decide) (by simpa using hlo)
      (by simpa using hhi)
    simpa [readInt] using hr
  | int64 hlo hhi =>
    have hr := readInt_signed (k := 8) (m := 2 ^ 63) t (by decide) (by simpa using hlo)
      (by simpa using hhi)
    simpa [readInt] using hr

theorem fixstr_tag : ∀ n < 32, UInt8.ofNat (0xa0 + n) &&& 0xe0 = 0xa0 ∧
    (UInt8.ofNat (0xa0 + n) &&& 0x1f).toNat = n ∧
    ElemType.ofTag (UInt8.ofNat (0xa0 + n)) = .str := by
  decide

/-- The tags of a header tell its forms apart, and all of them the type `type`. -/
structure HeadTags (fix : Nat) (tag16 tag32 : UInt8) (type : ElemType) : Prop where
  fix_or : ∀ n < 16, UInt8.ofNat fix ||| UInt8.ofNat n = UInt8.ofNat (fix + n)
  fix_high : ∀ n < 16, UInt8.ofNat (fix + n) &&& 0xf0 = UInt8.ofNat fix
  fix_low : ∀ n < 16, (UInt8.ofNat (fix + n) &&& 0x0f).toNat = n
  wide16 : ¬tag16 &&& 0xf0 = UInt8.ofNat fix
  wide32 : ¬tag32 &&& 0xf0 = UInt8.ofNat fix
  ne : tag32 ≠ tag16
  fixType : ∀ n < 16, ElemType.ofTag (UInt8.ofNat (fix + n)) = type
  type16 : ElemType.ofTag tag16 = type
  type32 : ElemType.ofTag tag32 = type

theorem arrayTags : HeadTags 0x90 0xdc 0xdd .array := by
  constructor <;> decide

theorem mapTags : HeadTags 0x80 0xde 0xdf .map := by
  constructor <;> decide

theorem readStr_form {s bs : Bytes} (t : Bytes) (h : StrForm s bs) :
    readStr ⟨bs ++ t⟩ = some (s, ⟨t⟩) := by
  cases h with
  | fixstr hs =>
    obtain ⟨htag, hlen, -⟩ := fixstr_tag _ hs
    simp only [readStr, List.cons_append, readU8_cons, Option.bind_eq_bind, Option.bind_some,
      if_pos htag, hlen, take_append t rfl]
  | str8 hs =>
    have htag : ¬(0xd9 : UInt8) &&& 0xe0 = 0xa0 := by decide
    simp [readStr, htag, readBe_toBe (s ++ t) hs, take_append t rfl]
  | str16 hs =>
    have htag : ¬(0xda : UInt8) &&& 0xe0 = 0xa0 := by decide
    simp [readStr, htag, readBe_toBe (s ++ t) hs, take_append t rfl]

theorem readBin_form {b bs : Bytes} (t : Bytes) (h : BinForm b bs) :
    readBin ⟨bs ++ t⟩ = some (b, ⟨t⟩) := by
  cases h with
  | bin8 hb => simp [readBin, readBe_toBe (b ++ t) hb, take_append t rfl]
  | bin16 hb => simp [readBin, readBe_toBe (b ++ t) hb, take_append t rfl]

theorem readHeader_form {fix : Nat} {tag16 tag32 : UInt8} {type : ElemType} {n : Nat} {bs : Bytes}
    (htags : HeadTags fix tag16 tag32 type) (t : Bytes) (h : Head fix tag16 tag32 n bs) :
    readHeader (UInt8.ofNat fix) tag16 tag32 ⟨bs ++ t⟩ = some (n, ⟨t⟩) := by
  cases h with
  | fix hn =>
    simp only [readHeader, List.cons_append, List.nil_append, readU8_cons, Option.bind_eq_bind,
      Option.bind_some, if_pos (htags.fix_high n hn), htags.fix_low n hn]
  | wide16 hn => simp [readHeader, htags.wide16, readBe_toBe t hn]
  | wide32 hn => simp [readHeader, htags.wide32, htags.ne, readBe_toBe t hn]

theorem readArrayHeader_form {n : Nat} {bs : Bytes} (t : Bytes) (h : ArrayHead n bs) :
    readArrayHeader ⟨bs ++ t⟩ = some (n, ⟨t⟩) := readHeader_form arrayTags t h

theorem readMapHeader_form {n : Nat} {bs : Bytes} (t : Bytes) (h : MapHead n bs) :
    readMapHeader ⟨bs ++ t⟩ = some (n, ⟨t⟩) := readHeader_form mapTags t h

theorem readFloat32_form (bits : UInt32) (t : Bytes) :
    readFloat32 ⟨0xca :: toBe 4 bits.toNat ++ t⟩ = some (bits, ⟨t⟩) := by
  have hlt : bits.toNat < 256 ^ 4 := bits.toNat_lt
  simp [readFloat32, readBe_toBe t hlt]

/-! ### Every read moves on -/

/-- Whatever `o` has read, at most `n` bytes are left after it. -/
def Leaves {α : Type} (n : Nat) (o : Option (α × Reader)) : Prop :=
  ∀ v r', o = some (v, r') → r'.rest.length ≤ n

namespace Leaves
variable {α β : Type} {n : Nat} {r : Reader}

@[simp] theorem none : Leaves n (none : Option (α × Reader)) := by
  intro v r' h
  cases h

@[simp] theorem some {v : α} : Leaves n (some (v, r)) ↔ r.rest.length ≤ n := by
  constructor
  · intro h
    exact h v r rfl
  · intro h v' r' heq
    cases heq
    exact h

theorem bind {o : Option (α × Reader)} {f : α × Reader → Option (β × Reader)}
    (h : Leaves n o) (hf : ∀ v r', r'.rest.length ≤ n → Leaves n (f (v, r'))) :
    Leaves n (o.bind f) := by
  intro v r' heq
  obtain ⟨⟨a, r₁⟩, ho, hv⟩ := Option.bind_eq_some_iff.mp heq
  exact hf a r₁ (h a r₁ ho) v r' hv

theorem map {o : Option (α × Reader)} {f : α × Reader → β × Reader} (h : Leaves n o)
    (hf : ∀ v, (f v).2 = v.2) : Leaves n (o.map f) := by
  intro v r' heq
  obtain ⟨⟨a, r₁⟩, ho, hv⟩ := Option.map_eq_some_iff.mp heq
  have hr : r' = r₁ := by
    have hf' := hf (a, r₁)
    rw [hv] at hf'
    exact hf'
  rw [hr]
  exact h a r₁ ho

theorem take {k : Nat} (h : r.rest.length ≤ n) : Leaves n (r.take k) := by
  unfold Reader.take
  split
  · simp only [some, List.length_drop]
    omega
  · exact none

theorem readBe {k : Nat} (h : r.rest.length ≤ n) : Leaves n (r.readBe k) := by
  apply bind (take h)
  intro bs r' hr'
  exact some.mpr hr'

/-- What starts with a tag has read at least that. -/
theorem lt {f : UInt8 × Reader → Option (α × Reader)} {v : α} {r' : Reader}
    (h : r.readU8.bind f = Option.some (v, r'))
    (hf : ∀ t r₁, r₁.rest.length + 1 = r.rest.length → Leaves r₁.rest.length (f (t, r₁))) :
    r'.rest.length < r.rest.length := by
  obtain ⟨⟨t, r₁⟩, hread, hv⟩ := Option.bind_eq_some_iff.mp h
  have hr₁ : r₁.rest.length + 1 = r.rest.length := by
    obtain ⟨bs⟩ := r
    cases bs with
    | nil => cases hread
    | cons b rest =>
      cases hread
      rfl
  have hle := hf t r₁ hr₁ v r' hv
  omega

end Leaves

theorem readBool_lt {r r' : Reader} {b : Bool} (h : r.readBool = some (b, r')) :
    r'.rest.length < r.rest.length := by
  refine Leaves.lt h ?_
  intro t r₁ hr₁
  grind [Leaves.some, Leaves.none]

theorem readUint_lt {r r' : Reader} {v : Nat} (h : r.readUint = some (v, r')) :
    r'.rest.length < r.rest.length := by
  refine Leaves.lt h ?_
  intro t r₁ hr₁
  grind [Leaves.some, Leaves.none, Leaves.readBe]

theorem readInt_lt {r r' : Reader} {v : Int} (h : r.readInt = some (v, r')) :
    r'.rest.length < r.rest.length := by
  refine Leaves.lt h ?_
  intro t r₁ hr₁
  have hu : ∀ k, Leaves r₁.rest.length ((r₁.readBe k).map unsigned) := by
    intro k
    exact .map (.readBe le_rfl) fun _ => rfl
  have hs : ∀ k, Leaves r₁.rest.length ((r₁.readBe k).map (signed k)) := by
    intro k
    exact .map (.readBe le_rfl) fun _ => rfl
  have h64 : Leaves r₁.rest.length ((r₁.readBe 8).bind fun v =>
      if 2 ^ 63 - 1 < v.1 then Option.none else Option.some ((v.1 : Int), v.2)) := by
    apply Leaves.bind (.readBe le_rfl)
    intro v r₂ hr₂
    split
    · exact .none
    · exact Leaves.some.mpr hr₂
  have hs0 : ∀ v : Int, Leaves r₁.rest.length (Option.some (v, r₁)) := by
    intro v
    exact Leaves.some.mpr le_rfl
  dsimp only
  repeat' split
  · exact hs0 _
  · exact hs0 _
  · exact hu 1
  · exact hu 2
  · exact hu 4
  · exact h64
  · exact hs 1
  · exact hs 2
  · exact hs 4
  · exact hs 8
  · exact .none

theorem readFloat32_lt {r r' : Reader} {v : UInt32} (h : r.readFloat32 = some (v, r')) :
    r'.rest.length < r.rest.length := by
  refine Leaves.lt h ?_
  intro t r₁ hr₁
  have hbits : ∀ (k : Nat) (f : Nat → UInt32), Leaves r₁.rest.length
      ((r₁.readBe k).bind fun v => Option.some (f v.1, v.2)) := by
    intro k f
    exact .bind (.readBe le_rfl) fun v r₂ hr₂ => Leaves.some.mpr hr₂
  dsimp only
  split
  · exact hbits 4 UInt32.ofNat
  · split
    · exact hbits 8 doubleToFloat
    · exact .none

theorem leaves_readBe_take (r : Reader) (k : Nat) :
    Leaves r.rest.length ((r.readBe k).bind fun v => v.2.take v.1) :=
  .bind (.readBe le_rfl) fun _ _ h => .take h

theorem readStr_lt {r r' : Reader} {s : Bytes} (h : r.readStr = some (s, r')) :
    r'.rest.length < r.rest.length := by
  refine Leaves.lt h ?_
  intro t r₁ hr₁
  grind [Leaves.none, Leaves.take, leaves_readBe_take]

theorem readBin_lt {r r' : Reader} {b : Bytes} (h : r.readBin = some (b, r')) :
    r'.rest.length < r.rest.length := by
  refine Leaves.lt h ?_
  intro t r₁ hr₁
  grind [Leaves.none, leaves_readBe_take]

theorem readHeader_lt {fix tag16 tag32 : UInt8} {r r' : Reader} {n : Nat}
    (h : readHeader fix tag16 tag32 r = some (n, r')) : r'.rest.length < r.rest.length := by
  refine Leaves.lt h ?_
  intro t r₁ hr₁
  grind [Leaves.some, Leaves.none, Leaves.readBe]

theorem readNil_lt {r r' : Reader} (h : r.readNil = some r') :
    r'.rest.length < r.rest.length := by
  obtain ⟨rest⟩ := r
  cases rest with
  | nil => cases h
  | cons t rest =>
    have hr : (if t = 0xc0 then some (⟨rest⟩ : Reader) else none) = some r' := h
    split at hr
    · cases hr
      simp
    · cases hr

/-! ### Skipping -/

theorem times_add (step : Reader → Option Reader) (m n : Nat) (r : Reader) :
    times step (m + n) r = (times step m r).bind (times step n) := by
  induction m generalizing r with
  | zero => simp [times]
  | succ m ih =>
    rw [Nat.succ_add, times, times, Option.bind_assoc]
    congr 1
    funext r'
    exact ih r'

theorem times_two (step : Reader → Option Reader) (n : Nat) (r : Reader) :
    times (fun r => (step r).bind step) n r = times step (2 * n) r := by
  induction n generalizing r with
  | zero => rfl
  | succ n ih =>
    have htwo : times step (2 * n + 1 + 1) r =
        (step r).bind fun r' => (step r').bind (times step (2 * n)) := rfl
    rw [Nat.mul_succ, htwo, times, Option.bind_assoc]
    congr 1
    funext r'
    congr 1
    funext r''
    exact ih r''

theorem times_le {step : Reader → Option Reader}
    (hstep : ∀ r r', step r = some r' → r'.rest.length < r.rest.length) {n : Nat} {r r' : Reader}
    (h : times step n r = some r') : r'.rest.length ≤ r.rest.length := by
  induction n generalizing r with
  | zero =>
    cases h
    exact le_rfl
  | succ n ih =>
    obtain ⟨r₁, hr₁, h⟩ := Option.bind_eq_some_iff.mp h
    have hlt := hstep r r₁ hr₁
    have hle := ih h
    omega

/-- Only what the steps do on readers with at most `n` bytes left matters. -/
theorem times_congr {step step' : Reader → Option Reader} {n : Nat}
    (heq : ∀ r, r.rest.length ≤ n → step r = step' r)
    (hstep : ∀ r r', step r = some r' → r'.rest.length < r.rest.length) (k : Nat) {r : Reader}
    (hr : r.rest.length ≤ n) : times step k r = times step' k r := by
  induction k generalizing r with
  | zero => rfl
  | succ k ih =>
    rw [times, times, ← heq r hr]
    cases hs : step r with
    | none => rfl
    | some r' =>
      have hlt := hstep r r' hs
      exact ih (by omega)

theorem skipBody_lt {skip : Reader → Option Reader}
    (hskip : ∀ r r', skip r = some r' → r'.rest.length < r.rest.length) {r r' : Reader}
    (h : skipBody skip r = some r') : r'.rest.length < r.rest.length := by
  have hmap : ∀ {α : Type} {o : Option (α × Reader)}, o.map Prod.snd = some r' →
      ∃ v, o = some (v, r') := by
    intro α o ho
    obtain ⟨⟨v, r₁⟩, hv, hr⟩ := Option.map_eq_some_iff.mp ho
    cases hr
    exact ⟨v, hv⟩
  rw [skipBody] at h
  split at h
  case h_1 => exact readNil_lt h
  case h_2 =>
    obtain ⟨v, hv⟩ := hmap h
    exact readBool_lt hv
  case h_3 =>
    obtain ⟨v, hv⟩ := hmap h
    exact readUint_lt hv
  case h_4 =>
    obtain ⟨v, hv⟩ := hmap h
    exact readInt_lt hv
  case h_5 =>
    obtain ⟨v, hv⟩ := hmap h
    exact readFloat32_lt hv
  case h_6 =>
    obtain ⟨v, hv⟩ := hmap h
    exact readFloat32_lt hv
  case h_7 =>
    obtain ⟨v, hv⟩ := hmap h
    exact readStr_lt hv
  case h_8 =>
    obtain ⟨v, hv⟩ := hmap h
    exact readBin_lt hv
  case h_9 =>
    obtain ⟨⟨n, r₁⟩, hn, hrest⟩ := Option.bind_eq_some_iff.mp h
    have hlt := readHeader_lt hn
    have hle : r'.rest.length ≤ r₁.rest.length := times_le hskip hrest
    omega
  case h_10 =>
    obtain ⟨⟨n, r₁⟩, hn, hrest⟩ := Option.bind_eq_some_iff.mp h
    have hlt := readHeader_lt hn
    rw [times_two] at hrest
    have hle : r'.rest.length ≤ r₁.rest.length := times_le hskip hrest
    omega
  case h_11 => cases h

/-- Only what it does on readers with less than `r` left to read matters for its calls of itself. -/
theorem skipBody_congr {skip skip' : Reader → Option Reader} {r : Reader}
    (heq : ∀ r₁, r₁.rest.length < r.rest.length → skip r₁ = skip' r₁)
    (hskip : ∀ r r', skip r = some r' → r'.rest.length < r.rest.length) :
    skipBody skip r = skipBody skip' r := by
  have hloop : ∀ {r₁ : Reader}, r₁.rest.length < r.rest.length → ∀ n,
      times skip n r₁ = times skip' n r₁ := by
    intro r₁ hr₁ n
    refine times_congr (n := r₁.rest.length) ?_ hskip n le_rfl
    intro r₂ hr₂
    exact heq r₂ (by omega)
  have harray : (r.readArrayHeader.bind fun v => times skip v.1 v.2) =
      r.readArrayHeader.bind fun v => times skip' v.1 v.2 := by
    cases hn : r.readArrayHeader with
    | none => rfl
    | some v => exact hloop (readHeader_lt hn) v.1
  have hmap : (r.readMapHeader.bind fun v => times (fun r => (skip r).bind skip) v.1 v.2) =
      r.readMapHeader.bind fun v => times (fun r => (skip' r).bind skip') v.1 v.2 := by
    cases hn : r.readMapHeader with
    | none => rfl
    | some v =>
      rw [Option.bind_some, Option.bind_some, times_two, times_two]
      exact hloop (readHeader_lt hn) (2 * v.1)
  rw [skipBody, skipBody, harray, hmap]

theorem skipWithin_lt {depth : Nat} : ∀ r r', skipWithin depth r = some r' →
    r'.rest.length < r.rest.length := by
  induction depth with
  | zero =>
    intro r r' h
    cases h
  | succ depth ih =>
    intro r r' h
    exact skipBody_lt ih h

/-- More depth than there are bytes changes nothing. -/
theorem skipWithin_enough {depth depth' : Nat} {r : Reader} (h : r.rest.length < depth)
    (h' : r.rest.length < depth') : skipWithin depth r = skipWithin depth' r := by
  induction depth generalizing depth' r with
  | zero => omega
  | succ depth ih =>
    obtain ⟨depth', rfl⟩ : ∃ k, depth' = k + 1 := ⟨depth' - 1, by omega⟩
    refine skipBody_congr ?_ skipWithin_lt
    intro r₁ hr₁
    exact ih (by omega) (by omega)

/-- `skip_value` as the source has it, with no bound on its recursion. -/
theorem skipValue_eq (r : Reader) : skipValue r = skipBody skipValue r := by
  refine skipBody_congr ?_ skipWithin_lt
  intro r₁ hr₁
  exact skipWithin_enough hr₁ (by omega)

theorem skipValue_lt {r r' : Reader} (h : r.skipValue = some r') :
    r'.rest.length < r.rest.length := skipWithin_lt r r' h

/-- An element whose type the tag gives away is skipped by the read of that type. -/
theorem times_skip {n : Nat} {bs rest t : Bytes}
    (h : skipBody skipValue ⟨bs ++ (rest ++ t)⟩ = some ⟨rest ++ t⟩)
    (ih : times skipValue n ⟨rest ++ t⟩ = some ⟨t⟩) :
    times skipValue (n + 1) ⟨bs ++ rest ++ t⟩ = some ⟨t⟩ := by
  rw [times, List.append_assoc, skipValue_eq, h]
  exact ih

theorem posFix_tag : ∀ n < 128, ElemType.ofTag (UInt8.ofNat n) = .uint ∧ UInt8.ofNat n < 0x80 := by
  decide

theorem negFix_tag : ∀ n < 32, ElemType.ofTag (UInt8.ofNat (0xe0 + n)) = .intSigned := by
  decide

theorem skipBody_int {skip : Reader → Option Reader} {v : Int} {bs : Bytes} (t : Bytes)
    (h : IntForm v bs) : skipBody skip ⟨bs ++ t⟩ = some ⟨t⟩ := by
  have hsigned : ∀ {tag : UInt8} {body : Bytes}, bs = tag :: body →
      ElemType.ofTag tag = .intSigned → v < 2 ^ 63 → skipBody skip ⟨bs ++ t⟩ = some ⟨t⟩ := by
    intro tag body hbs htag hv
    have hread := readInt_form t h hv
    have hpeek : peekType ⟨bs ++ t⟩ = .intSigned := by
      rw [hbs]
      exact htag
    rw [skipBody, hpeek]
    simp [hread]
  cases h with
  | @posFix n hn =>
    obtain ⟨htag, hlt⟩ := posFix_tag n hn
    simp only [skipBody, List.cons_append, List.nil_append, peekType_cons, htag, readUint,
      readU8_cons, Option.bind_eq_bind, Option.bind_some, if_pos hlt, Option.map_some]
  | @negFix n hn => exact hsigned rfl (negFix_tag n hn) (by omega)
  | uint8 hn =>
    have htag : ElemType.ofTag 0xcc = .uint := by decide
    simp [skipBody, htag, readUint, readBe_toBe t hn]
  | uint16 hn =>
    have htag : ElemType.ofTag 0xcd = .uint := by decide
    simp [skipBody, htag, readUint, readBe_toBe t hn]
  | uint32 hn =>
    have htag : ElemType.ofTag 0xce = .uint := by decide
    simp [skipBody, htag, readUint, readBe_toBe t hn]
  | uint64 hn =>
    have htag : ElemType.ofTag 0xcf = .uint := by decide
    simp [skipBody, htag, readUint, readBe_toBe t hn]
  | int8 hlo hhi => exact hsigned rfl (by decide) (by omega)
  | int16 hlo hhi => exact hsigned rfl (by decide) (by omega)
  | int32 hlo hhi => exact hsigned rfl (by decide) (by omega)
  | int64 hlo hhi => exact hsigned rfl (by decide) hhi

theorem peekType_str {s bs : Bytes} (t : Bytes) (h : StrForm s bs) :
    peekType ⟨bs ++ t⟩ = .str := by
  cases h with
  | fixstr hs => exact (fixstr_tag _ hs).2.2
  | str8 hs => rfl
  | str16 hs => rfl

theorem peekType_bin {b bs : Bytes} (t : Bytes) (h : BinForm b bs) :
    peekType ⟨bs ++ t⟩ = .bin := by
  cases h <;> rfl

theorem peekType_head {fix : Nat} {tag16 tag32 : UInt8} {type : ElemType} {n : Nat} {bs : Bytes}
    (htags : HeadTags fix tag16 tag32 type) (t : Bytes) (h : Head fix tag16 tag32 n bs) :
    peekType ⟨bs ++ t⟩ = type := by
  cases h with
  | fix hn => exact htags.fixType n hn
  | wide16 hn => exact htags.type16
  | wide32 hn => exact htags.type32

/-- `skip_value` takes exactly the elements it is asked to skip, whatever follows them. -/
theorem skip_elems {n : Nat} {bs : Bytes} (h : Elems n bs) (t : Bytes) :
    times skipValue n ⟨bs ++ t⟩ = some ⟨t⟩ := by
  induction h with
  | done => rfl
  | @nil n rest h ih => exact @times_skip n [0xc0] rest t rfl ih
  | @bool n rest b h ih =>
    refine @times_skip n [if b then 0xc3 else 0xc2] rest t ?_ ih
    cases b <;> rfl
  | int hv h ih => exact times_skip (skipBody_int _ hv) ih
  | @float32 n rest bits h ih =>
    refine @times_skip n (0xca :: toBe 4 bits) rest t ?_ ih
    have htag : ElemType.ofTag 0xca = .float32 := by decide
    simp [skipBody, htag, readFloat32, readBe_append (rest ++ t) (length_toBe 4 bits)]
  | @float64 n rest bits h ih =>
    refine @times_skip n (0xcb :: toBe 8 bits) rest t ?_ ih
    have htag : ElemType.ofTag 0xcb = .float64 := by decide
    simp [skipBody, htag, readFloat32, readBe_append (rest ++ t) (length_toBe 8 bits)]
  | str hs h ih =>
    refine times_skip ?_ ih
    simp [skipBody, peekType_str _ hs, readStr_form _ hs]
  | bin hb h ih =>
    refine times_skip ?_ ih
    simp [skipBody, peekType_bin _ hb, readBin_form _ hb]
  | @array n k bs rest hk h ih =>
    -- the header's own elements come first, then the others
    rw [times, List.append_assoc, skipValue_eq, skipBody, peekType_head arrayTags _ hk]
    simp only [readArrayHeader_form _ hk, Option.bind_some]
    rw [← times_add]
    exact ih
  | @map n k bs rest hk h ih =>
    rw [times, List.append_assoc, skipValue_eq, skipBody, peekType_head mapTags _ hk]
    simp only [readMapHeader_form _ hk, Option.bind_some, times_two]
    rw [← times_add]
    exact ih

theorem skip_elem {bs : Bytes} (h : Elems 1 bs) (t : Bytes) :
    skipValue ⟨bs ++ t⟩ = some ⟨t⟩ := by
  have hskip := skip_elems h t
  rw [times] at hskip
  obtain ⟨r, hr, hdone⟩ := Option.bind_eq_some_iff.mp hskip
  cases hdone
  exact hr

end Reader

/-! ### Writing -/

namespace Writer

theorem header_eq {fix : Nat} {tag16 tag32 : UInt8} {type : ElemType} {n : Nat} (what : String)
    (htags : Reader.HeadTags fix tag16 tag32 type) (hn : n < 65536) (w : Writer) :
    ∃ bs, header (UInt8.ofNat fix) tag16 what w n = .ok (w.append bs) ∧
      Head fix tag16 tag32 n bs := by
  by_cases hshort : n < 16
  · refine ⟨_, if_pos hshort, ?_⟩
    rw [htags.fix_or n hshort]
    exact .fix hshort
  · refine ⟨_, ?_, .wide16 hn⟩
    rw [header, if_neg hshort, if_pos hn]

/-- A header throws for 65536 elements and more. -/
theorem header_large {fix tag16 : UInt8} {n : Nat} (what : String) (hn : ¬n < 65536) (w : Writer) :
    header fix tag16 what w n = .error (.invalidArgument what) := by
  rw [header, if_neg (by omega), if_neg hn]

theorem arrayHeader_eq {n : Nat} (hn : n < 65536) (w : Writer) :
    ∃ bs, w.arrayHeader n = .ok (w.append bs) ∧ ArrayHead n bs :=
  header_eq _ Reader.arrayTags hn w

theorem mapHeader_eq {n : Nat} (hn : n < 65536) (w : Writer) :
    ∃ bs, w.mapHeader n = .ok (w.append bs) ∧ MapHead n bs :=
  header_eq _ Reader.mapTags hn w

theorem str_eq {s : Bytes} (hs : s.length < 256) (w : Writer) :
    ∃ bs, w.str s = .ok (w.append bs) ∧ StrForm s bs := by
  have htag : ∀ n < 32, 0xa0 ||| UInt8.ofNat n = UInt8.ofNat (0xa0 + n) := by decide
  by_cases hshort : s.length < 32
  · refine ⟨_, if_pos hshort, ?_⟩
    rw [htag _ hshort]
    exact .fixstr hshort
  · refine ⟨_, ?_, .str8 hs⟩
    rw [str, if_neg hshort, if_pos hs]
    rfl

theorem bin_eq {b : Bytes} (hb : b.length < 256) (w : Writer) :
    ∃ bs, w.bin b = .ok (w.append bs) ∧ BinForm b bs := by
  refine ⟨_, ?_, .bin8 hb⟩
  rw [bin, if_neg (by omega)]
  rfl

end Writer
end Msgpack
end Reticulum
