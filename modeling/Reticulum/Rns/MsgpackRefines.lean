import Reticulum.Rns.MsgpackElems
import Reticulum.Rns.MsgpackObjects

/-!
# The reader object refines the reader

A call on a reader without an error does to its buffer and offset what the reader of `Msgpack` does
to the bytes still to be read; on a reader with an error it does nothing.
-/

namespace Reticulum
namespace Msgpack
open Endian

namespace ReaderState

def move (r : ReaderState) (n : Nat) : ReaderState := { r with off := r.off + n }
def failed (r : ReaderState) : ReaderState := { r with ok := false }

/-- What is still to be read. -/
def unread (r : ReaderState) : Reader := ⟨r.buf.drop r.off⟩

/-- No error yet, and the offset where it may be. -/
structure Live (r : ReaderState) : Prop where
  ok : r.ok = true
  le : r.off ≤ r.buf.length

section
variable {r : ReaderState} {n k : Nat}

@[simp] theorem move_buf : (r.move n).buf = r.buf := rfl
@[simp] theorem move_off : (r.move n).off = r.off + n := rfl

theorem move_move : (r.move k).move n = r.move (k + n) := by
  simp only [move, Nat.add_assoc]

theorem Live.move (h : r.Live) (hn : r.off + n ≤ r.buf.length) : (r.move n).Live := ⟨h.ok, hn⟩

theorem length_unread : r.unread.rest.length = r.buf.length - r.off := List.length_drop

/-- A reader in the middle of a buffer. -/
theorem live_at (pre t : Bytes) : Live ⟨pre ++ t, pre.length, true⟩ := by
  refine ⟨rfl, ?_⟩
  rw [List.length_append]
  exact Nat.le_add_right _ _

theorem unread_at (pre t : Bytes) : unread ⟨pre ++ t, pre.length, true⟩ = ⟨t⟩ := by
  rw [unread, List.drop_left]

theorem unread_move : (r.move n).unread = ⟨r.unread.rest.drop n⟩ := by
  simp [unread]

theorem length_unread_move : (r.move n).unread.rest.length ≤ r.unread.rest.length := by
  rw [unread_move, List.length_drop]
  exact Nat.sub_le _ _

/-- Behind the bytes `bs`. -/
theorem Live.past (h : r.Live) {bs t : Bytes} (hrest : r.unread.rest = bs ++ t) :
    (r.move bs.length).Live ∧ (r.move bs.length).unread = ⟨t⟩ := by
  have hall := congrArg List.length hrest
  rw [length_unread, List.length_append] at hall
  have hle := h.le
  refine ⟨h.move (by omega), ?_⟩
  rw [unread_move, hrest, List.drop_left]

@[simp] theorem run_bind {α β : Type} (m : Call α) (f : α → Call β) :
    (m >>= f) r = (m r).bind fun p => f p.1 p.2 := rfl

@[simp] theorem run_pure {α : Type} (a : α) : (pure a : Call α) r = some (a, r) := rfl
@[simp] theorem run_map {α β : Type} (f : α → β) (m : Call α) :
    (f <$> m) r = (m r).map fun p => (f p.1, p.2) := by
  show (m r).bind _ = _
  cases m r <;> rfl

@[simp] theorem run_get : (get : Call ReaderState) r = some (r, r) := rfl
@[simp] theorem advance_run : advance n r = some ((), r.move n) := rfl

/-! ### The primitives -/

theorem need_run (n : Nat) (r : ReaderState) : need n r =
    if (!r.ok) = true then some (false, r)
    else if r.buf.length < r.off + n then some (false, r.failed) else some (true, r) := by
  show (if (!r.ok) = true then (pure false : Call Bool)
    else if r.buf.length < r.off + n then (do setFailed; return false) else pure true) r = _
  split
  · rfl
  split
  · rfl
  · rfl

theorem need_fits (h : r.Live) (hn : r.off + n ≤ r.buf.length) : need n r = some (true, r) := by
  rw [need_run, h.ok, if_neg (by decide), if_neg (by omega)]

theorem need_short (h : r.Live) (hn : r.buf.length < r.off + n) :
    need n r = some (false, r.failed) := by
  rw [need_run, h.ok, if_neg (by decide), if_pos hn]

theorem need_failed (h : r.ok = false) (n : Nat) : need n r = some (false, r) := by
  rw [need_run, h]
  rfl

theorem byteAt_unread {i : Nat} {b : UInt8} (h : r.unread.rest[i]? = some b) :
    byteAt (r.off + i) r = some (b, r) := by
  have hbyte : r.buf[r.off + i]? = some b := by rwa [unread, List.getElem?_drop] at h
  rw [byteAt, hbyte]
  rfl

/-- `m` reads `k` bytes that are there, most significant first. -/
def Reads {γ : Type} (k : Nat) (m : Call γ) (num : γ → Nat) : Prop :=
  ∀ (r : ReaderState) (bs t : Bytes), r.unread.rest = bs ++ t → bs.length = k →
    ∃ w, m r = some (w, r.move k) ∧ num w = ofBe bs

theorem reads_readU8 : Reads 1 readU8 UInt8.toNat := by
  intro r bs t hbs hlen
  obtain ⟨b, rfl⟩ := List.length_eq_one_iff.mp hlen
  have h₀ : byteAt r.off r = some (b, r) := byteAt_unread (i := 0) (by rw [hbs]; rfl)
  refine ⟨b, ?_, by simp [ofBe]⟩
  simp [readU8, h₀]

theorem reads_readBe16 : Reads 2 readBe16 UInt16.toNat := by
  intro r bs t hbs hlen
  obtain ⟨b₀, b₁, rfl⟩ := List.length_eq_two.mp hlen
  have h₀ : byteAt r.off r = some (b₀, r) := byteAt_unread (i := 0) (by rw [hbs]; rfl)
  have h₁ : byteAt (r.off + 1) r = some (b₁, r) := byteAt_unread (by rw [hbs]; rfl)
  refine ⟨b₀.toUInt16 <<< 8 ||| b₁.toUInt16, ?_, toNat_shift16 b₀ b₁⟩
  simp [readBe16, h₀, h₁]

theorem reads_readBe32 : Reads 4 readBe32 UInt32.toNat := by
  intro r bs t hbs hlen
  obtain ⟨b₀, b₁, b₂, b₃, rfl⟩ : ∃ b₀ b₁ b₂ b₃, bs = [b₀, b₁, b₂, b₃] := by
    match bs, hlen with
    | [b₀, b₁, b₂, b₃], _ => exact ⟨b₀, b₁, b₂, b₃, rfl⟩
  have h₀ : byteAt r.off r = some (b₀, r) := byteAt_unread (i := 0) (by rw [hbs]; rfl)
  have h₁ : byteAt (r.off + 1) r = some (b₁, r) := byteAt_unread (by rw [hbs]; rfl)
  have h₂ : byteAt (r.off + 2) r = some (b₂, r) := byteAt_unread (by rw [hbs]; rfl)
  have h₃ : byteAt (r.off + 3) r = some (b₃, r) := byteAt_unread (by rw [hbs]; rfl)
  refine ⟨_, ?_, toNat_shift32 b₀ b₁ b₂ b₃⟩
  simp [readBe32, h₀, h₁, h₂, h₃]

/-- The loop of `read_be64` after `n` turns. -/
theorem be64_turns {bs t : Bytes} (hbs : r.unread.rest = bs ++ t) (hlen : bs.length = 8)
    (hn : n ≤ 8) : ∃ v : UInt64, ((List.range n).foldlM (fun (v : UInt64) i => do
      let b ← byteAt (r.off + i)
      return v <<< 8 ||| b.toUInt64) 0 : Call UInt64) r = some (v, r) ∧
      v.toNat = ofBe (bs.take n) := by
  induction n with
  | zero => exact ⟨0, rfl, rfl⟩
  | succ n ih =>
    obtain ⟨v, hv, hnum⟩ := ih (by omega)
    have hin : n < bs.length := by omega
    have hbyte : byteAt (r.off + n) r = some (bs[n], r) := byteAt_unread (by
      rw [hbs, List.getElem?_append_left hin, List.getElem?_eq_getElem hin])
    have hsmall : v.toNat < 256 ^ 7 := by
      rw [hnum]
      refine Nat.lt_of_lt_of_le (ofBe_lt _) (Nat.pow_le_pow_right (by decide) ?_)
      rw [List.length_take]
      omega
    refine ⟨v <<< 8 ||| bs[n].toUInt64, ?_, ?_⟩
    · rw [List.range_succ, List.foldlM_append, run_bind, hv]
      simp [hbyte]
    · rw [toNat_shift64 hsmall, hnum, List.take_succ_eq_append_getElem hin, ofBe_concat]

theorem reads_readBe64 : Reads 8 readBe64 UInt64.toNat := by
  intro r bs t hbs hlen
  obtain ⟨v, hv, hnum⟩ := be64_turns hbs hlen (le_refl 8)
  rw [List.take_of_length_le hlen.le] at hnum
  refine ⟨v, ?_, hnum⟩
  unfold readBe64
  simp only [run_bind, run_get, Option.bind_some, hv, advance_run, run_pure]

/-! ### What a call does -/

/-- From `r` a call ends in `res` where the reader of `Msgpack` ends in `o`: it moves on over what
that has read and returns its value, as `mk` has it, or moves on somewhere, sets the error and
returns `bad`. -/
def Meets {ρ β : Type} (bad : ρ) (mk : β → ρ) (r : ReaderState) (res : Option (ρ × ReaderState))
    (o : Option (β × Reader)) : Prop :=
  ∃ n, r.off + n ≤ r.buf.length ∧
    ((∃ v, res = some (mk v, r.move n) ∧ o = some (v, (r.move n).unread)) ∨
      (res = some (bad, (r.move n).failed) ∧ o = none))

namespace Meets
variable {ρ β γ : Type} {bad : ρ} {mk : β → ρ} {res : Option (ρ × ReaderState)}
  {o : Option (β × Reader)}

theorem here (hr : r.Live) (v : β) : Meets bad mk r (some (mk v, r)) (some (v, r.unread)) :=
  ⟨0, hr.le, .inl ⟨v, rfl, rfl⟩⟩

theorem error (hr : r.Live) : Meets bad mk r (some (bad, r.failed)) none :=
  ⟨0, hr.le, .inr ⟨rfl, rfl⟩⟩

theorem moved (h : Meets bad mk (r.move k) res o) : Meets bad mk r res o := by
  obtain ⟨n, hn, h⟩ := h
  rw [move_move] at h
  refine ⟨k + n, ?_, h⟩
  rw [move_buf, move_off] at hn
  omega

theorem ite {c : Prop} [Decidable c] {m m' : Call ρ} {o' : Option (β × Reader)}
    (h : c → Meets bad mk r (m r) o) (h' : ¬c → Meets bad mk r (m' r) o') :
    Meets bad mk r ((if c then m else m') r) (if c then o else o') := by
  split
  · exact h ‹_›
  · exact h' ‹_›

/-- A call and what is done with its result. -/
theorem bind {ρ' β' : Type} {m : Call ρ} {f : ρ → Call ρ'} {bad' : ρ'} {mk' : β' → ρ'}
    {g : β × Reader → Option (β' × Reader)} (h : Meets bad mk r (m r) o)
    (hbad : ∀ r', f bad r' = some (bad', r'))
    (hnext : ∀ n v, r.off + n ≤ r.buf.length → o = some (v, (r.move n).unread) →
      Meets bad' mk' (r.move n) (f (mk v) (r.move n)) (g (v, (r.move n).unread))) :
    Meets bad' mk' r ((m >>= f) r) (o.bind g) := by
  obtain ⟨n, hn, ⟨v, hm, ho⟩ | ⟨hm, rfl⟩⟩ := h
  · rw [run_bind, hm, ho]
    exact (hnext n v hn ho).moved
  · refine ⟨n, hn, .inr ⟨?_, rfl⟩⟩
    rw [run_bind, hm]
    exact hbad _

/-- `if (!need(n)) return false;` -/
theorem need (hr : r.Live) {m : Call ρ} (hfits : r.off + n ≤ r.buf.length → Meets bad mk r (m r) o)
    (hshort : r.buf.length < r.off + n → o = none) :
    Meets bad mk r ((ReaderState.need n >>= fun b =>
      if (!b) = true then pure bad else m) r) o := by
  by_cases hn : r.off + n ≤ r.buf.length
  · rw [run_bind, need_fits hr hn]
    exact hfits hn
  · rw [run_bind, need_short hr (by omega), hshort (by omega)]
    exact error hr

/-- A number of `k` bytes, and what is done with it. -/
theorem number {m : Call γ} {num : γ → Nat} (hm : Reads k m num) (hr : r.Live) {f : γ → Call ρ}
    {g : Nat × Reader → Option (β × Reader)}
    (hf : ∀ w r', r'.Live → Meets bad mk r' (f w r') (g (num w, r'.unread))) :
    Meets bad mk r ((ReaderState.need k >>= fun b => if (!b) = true then pure bad else m >>= f) r)
      ((r.unread.readBe k).bind g) := by
  refine need hr ?_ ?_
  · intro hn
    have hlen : (r.unread.rest.take k).length = k := by
      rw [List.length_take, length_unread]
      omega
    obtain ⟨w, hw, hnum⟩ := hm r _ _ (List.take_append_drop k _).symm hlen
    have hread : r.unread.readBe k = some (num w, (r.move k).unread) := by
      have happend := Reader.readBe_append (r.unread.rest.drop k) hlen
      rw [List.take_append_drop] at happend
      rw [unread_move, hnum]
      exact happend
    rw [run_bind, hw, hread]
    exact (hf w _ (hr.move hn)).moved
  · intro hn
    have hle := hr.le
    have htake : r.unread.take k = none := by
      rw [Reader.take, if_neg]
      rw [length_unread]
      omega
    rw [Reader.readBe, htake]
    rfl

/-- A number of `k` bytes that is the value, up to a conversion. -/
theorem value {m : Call γ} {num : γ → Nat} (hm : Reads k m num) (hr : r.Live) {conv : γ → ρ}
    {f : Nat → β} (hconv : ∀ w, conv w = mk (f (num w))) :
    Meets bad mk r ((ReaderState.need k >>= fun b =>
      if (!b) = true then pure bad else m >>= fun w => pure (conv w)) r)
      ((r.unread.readBe k).map fun v => (f v.1, v.2)) := by
  have hmap : ((r.unread.readBe k).map fun v => (f v.1, v.2)) =
      (r.unread.readBe k).bind fun v => some (f v.1, v.2) := by
    rw [Option.map_eq_bind]
    rfl
  rw [hmap]
  refine number hm hr ?_
  intro w r' hr'
  rw [run_pure, hconv w]
  exact here hr' _

/-- A number of `k` bytes that is the value. -/
theorem plain {m : Call γ} {num : γ → Nat} (hm : Reads k m num) (hr : r.Live) {conv : γ → ρ}
    {mk : Nat → ρ} (hconv : ∀ w, conv w = mk (num w)) :
    Meets bad mk r ((ReaderState.need k >>= fun b =>
      if (!b) = true then pure bad else m >>= fun w => pure (conv w)) r) (r.unread.readBe k) := by
  rw [← Option.bind_fun_some (r.unread.readBe k)]
  refine number hm hr ?_
  intro w r' hr'
  rw [run_pure, hconv w]
  exact here hr' _

end Meets

end

/-! ### The reads -/

/-- `m` does what `f` does, and nothing once there is an error. -/
structure Refines {ρ β : Type} (m : Call ρ) (bad : ρ) (mk : β → ρ)
    (f : Reader → Option (β × Reader)) : Prop where
  live : ∀ r, r.Live → Meets bad mk r (m r) (f r.unread)
  dead : ∀ r, r.ok = false → m r = some (bad, r)

namespace Refines
variable {ρ ρ' β : Type} {m : Call ρ} {bad : ρ} {mk : β → ρ} {f : Reader → Option (β × Reader)}
  {r : ReaderState}

/-- Where `f` is left decides where the offset goes. -/
theorem moves (h : Refines m bad mk f) (hr : r.Live) {n : Nat} {v : β}
    (hn : r.off + n ≤ r.buf.length) (hf : f r.unread = some (v, (r.move n).unread)) :
    m r = some (mk v, r.move n) := by
  obtain ⟨k, hk, hm⟩ := h.live r hr
  rw [hf] at hm
  rcases hm with ⟨v', hm, ho⟩ | ⟨-, ho⟩
  · obtain ⟨rfl, hrest⟩ := Prod.mk.inj (Option.some.inj ho)
    have hlen := congrArg (fun r : Reader => r.rest.length) hrest
    simp only [length_unread, move_buf, move_off] at hlen
    obtain rfl : k = n := by omega
    exact hm
  · cases ho

/-- An element that `f` takes, in the middle of a buffer. -/
theorem takes (h : Refines m bad mk f) (hr : r.Live) {bs t : Bytes} {v : β}
    (hrest : r.unread.rest = bs ++ t) (hf : f ⟨bs ++ t⟩ = some (v, ⟨t⟩)) :
    m r = some (mk v, r.move bs.length) := by
  obtain ⟨hlive, hnext⟩ := hr.past hrest
  refine h.moves hr hlive.le ?_
  have hread : r.unread = ⟨bs ++ t⟩ := congrArg Reader.mk hrest
  rw [hnext, hread, hf]

theorem fails (h : Refines m bad mk f) (hr : r.Live) (hf : f r.unread = none) :
    ∃ r', m r = some (bad, r') ∧ r'.ok = false := by
  obtain ⟨n, hn, hm⟩ := h.live r hr
  rw [hf] at hm
  rcases hm with ⟨v, -, ho⟩ | ⟨hm, -⟩
  · cases ho
  · exact ⟨_, hm, rfl⟩

theorem map (h : Refines m bad mk f) (g : ρ → ρ') :
    Refines (m >>= fun p => pure (g p)) (g bad) (fun v => g (mk v)) f := by
  constructor
  · intro r hr
    rw [← Option.bind_fun_some (f r.unread)]
    refine (h.live r hr).bind (fun _ => rfl) ?_
    intro n v hn _
    exact .here (hr.move hn) v
  · intro r hr
    rw [run_bind, h.dead r hr]
    rfl

end Refines

section
variable {ρ β γ : Type} {bad : ρ} {mk : β → ρ} {r : ReaderState} {k : Nat}

/-- What starts with a tag. -/
theorem refines_tag {f : UInt8 → Call ρ} {g : UInt8 × Reader → Option (β × Reader)}
    (h : ∀ t r, r.Live → Meets bad mk r (f t r) (g (t, r.unread))) :
    Refines (need 1 >>= fun b => if (!b) = true then pure bad else readU8 >>= f) bad mk
      fun r => r.readU8.bind g := by
  constructor
  · intro r hr
    refine Meets.need hr ?_ ?_
    · intro hn
      have hlt : r.off < r.buf.length := hn
      have hdrop : r.unread.rest = r.buf[r.off] :: r.buf.drop (r.off + 1) :=
        List.drop_eq_getElem_cons hlt
      obtain ⟨w, hw, hnum⟩ := reads_readU8 r [r.buf[r.off]] _ hdrop rfl
      have hwt : w = r.buf[r.off] := by
        apply UInt8.toNat_inj.mp
        rw [hnum]
        simp [ofBe]
      have hread : r.unread.readU8 = some (w, (r.move 1).unread) := by
        rw [hwt, Reader.readU8, hdrop]
        rfl
      rw [run_bind, hw, hread]
      exact (h w _ (hr.move hn)).moved
    · intro hn
      have hnone : r.unread.readU8 = none := by
        rw [unread, List.drop_eq_nil_of_le (by omega)]
        rfl
      rw [hnone]
      rfl
  · intro r hr
    rw [run_bind, need_failed hr]
    rfl

theorem setFailed_meets (hr : r.Live) :
    Meets bad mk r ((do setFailed; return bad : Call ρ) r) none := Meets.error hr

theorem readNil_refines : Refines readNil false (fun _ : Unit => true)
    fun r => r.readNil.map fun r => ((), r) := by
  have htag : (fun r : Reader => r.readNil.map fun r => ((), r)) = fun r => r.readU8.bind fun v =>
      if v.1 ≠ 0xc0 then none else some ((), v.2) := by
    funext r
    unfold Reader.readNil
    cases r.readU8 with
    | none => rfl
    | some v =>
      show Option.map _ (if v.1 = 0xc0 then some v.2 else none) = _
      by_cases h : v.1 = 0xc0 <;> simp [h]
  rw [htag]
  refine refines_tag ?_
  intro t r hr
  refine Meets.ite (fun _ => setFailed_meets hr) ?_
  intro _
  exact Meets.here hr ()

theorem readBool_refines (out : Bool) :
    Refines (readBool out) (false, out) (fun v => (true, v)) Reader.readBool := by
  refine refines_tag ?_
  intro t r hr
  refine Meets.ite (fun _ => Meets.here hr false) fun _ => ?_
  refine Meets.ite (fun _ => Meets.here hr true) fun _ => ?_
  exact setFailed_meets hr

theorem readUint_refines (out : UInt64) :
    Refines (readUint out) (false, out) (fun v => (true, UInt64.ofNat v)) Reader.readUint := by
  refine refines_tag ?_
  intro t r hr
  refine Meets.ite (fun _ => ?_) fun _ => ?_
  · rw [← UInt64.ofNat_uInt8ToNat]
    exact Meets.here hr _
  refine Meets.ite (fun _ => Meets.plain reads_readU8 hr ?_) fun _ => ?_
  · intro w
    rw [UInt64.ofNat_uInt8ToNat]
  refine Meets.ite (fun _ => Meets.plain reads_readBe16 hr ?_) fun _ => ?_
  · intro w
    rw [UInt64.ofNat_uInt16ToNat]
  refine Meets.ite (fun _ => Meets.plain reads_readBe32 hr ?_) fun _ => ?_
  · intro w
    rw [UInt64.ofNat_uInt32ToNat]
  refine Meets.ite (fun _ => Meets.plain reads_readBe64 hr ?_) fun _ => ?_
  · intro w
    rw [UInt64.ofNat_toNat]
  exact setFailed_meets hr

/-- The casts of the unsigned widths to `int64_t`. -/
theorem toInt64_ofNat (v : UInt64) : v.toInt64 = Int64.ofInt v.toNat := by
  apply Int64.toInt_inj.mp
  rw [Int64.toInt_ofInt]
  exact BitVec.toInt_eq_toNat_bmod v.toBitVec

theorem toInt64_ofInt8 (v : UInt8) :
    v.toInt8.toInt64 = Int64.ofInt ((v.toNat : Int).bmod (256 ^ 1)) := by
  rw [← Int64.ofInt_int8ToInt]
  exact congrArg Int64.ofInt (BitVec.toInt_eq_toNat_bmod v.toBitVec)

theorem toInt64_ofInt16 (v : UInt16) :
    v.toInt16.toInt64 = Int64.ofInt ((v.toNat : Int).bmod (256 ^ 2)) := by
  rw [← Int64.ofInt_int16ToInt]
  exact congrArg Int64.ofInt (BitVec.toInt_eq_toNat_bmod v.toBitVec)

theorem toInt64_ofInt32 (v : UInt32) :
    v.toInt32.toInt64 = Int64.ofInt ((v.toNat : Int).bmod (256 ^ 4)) := by
  rw [← Int64.ofInt_int32ToInt]
  exact congrArg Int64.ofInt (BitVec.toInt_eq_toNat_bmod v.toBitVec)

theorem toInt64_ofInt64 (v : UInt64) :
    v.toInt64 = Int64.ofInt ((v.toNat : Int).bmod (256 ^ 8)) := by
  rw [← Int64.ofInt_toInt v.toInt64]
  exact congrArg Int64.ofInt (BitVec.toInt_eq_toNat_bmod v.toBitVec)

theorem readInt_refines (out : Int64) :
    Refines (readInt out) (false, out) (fun v => (true, Int64.ofInt v)) Reader.readInt := by
  refine refines_tag ?_
  intro t r hr
  have hsigned : ∀ (k : Nat) {γ : Type} {m : Call γ} {num : γ → Nat} {conv : γ → Bool × Int64},
      Reads k m num → r.Live →
      (∀ w, conv w = (true, Int64.ofInt ((num w : Int).bmod (256 ^ k)))) →
      Meets (false, out) (fun v => (true, Int64.ofInt v)) r ((need k >>= fun b =>
        if (!b) = true then pure (false, out) else m >>= fun w => pure (conv w)) r)
        ((r.unread.readBe k).map (Reader.signed k)) := by
    intro k γ m num conv hm hr hconv
    exact Meets.value (f := fun n => (n : Int).bmod (256 ^ k)) hm hr hconv
  have hunsigned : ∀ (v : UInt64) (n : Nat), v.toNat = n →
      (true, v.toInt64) = (true, Int64.ofInt n) := by
    rintro v n rfl
    rw [toInt64_ofNat]
  refine Meets.ite (fun _ => ?_) fun _ => ?_
  · rw [hunsigned t.toUInt64 t.toNat (UInt8.toNat_toUInt64 t)]
    exact Meets.here hr _
  refine Meets.ite (fun _ => ?_) fun _ => ?_
  · rw [toInt64_ofInt8]
    exact Meets.here hr _
  refine Meets.ite (fun _ => Meets.value reads_readU8 hr ?_) fun _ => ?_
  · intro w
    exact hunsigned _ _ (UInt8.toNat_toUInt64 w)
  refine Meets.ite (fun _ => Meets.value reads_readBe16 hr ?_) fun _ => ?_
  · intro w
    exact hunsigned _ _ (UInt16.toNat_toUInt64 w)
  refine Meets.ite (fun _ => Meets.value reads_readBe32 hr ?_) fun _ => ?_
  · intro w
    exact hunsigned _ _ (UInt32.toNat_toUInt64 w)
  refine Meets.ite (fun _ => Meets.number reads_readBe64 hr ?_) fun _ => ?_
  · intro w r' hr'
    have hmax : Int64.maxValue.toUInt64 < w ↔ 2 ^ 63 - 1 < w.toNat := UInt64.lt_iff_toNat_lt
    show Meets _ _ _ _ (if 2 ^ 63 - 1 < w.toNat then none else some ((w.toNat : Int), r'.unread))
    by_cases h : Int64.maxValue.toUInt64 < w
    · rw [if_pos h, if_pos (hmax.mp h)]
      exact setFailed_meets hr'
    · rw [if_neg h, if_neg fun h' => h (hmax.mpr h'), hunsigned w w.toNat rfl]
      exact Meets.here hr' (w.toNat : Int)
  refine Meets.ite (fun _ => hsigned 1 reads_readU8 hr ?_) fun _ => ?_
  · intro w
    rw [toInt64_ofInt8]
  refine Meets.ite (fun _ => hsigned 2 reads_readBe16 hr ?_) fun _ => ?_
  · intro w
    rw [toInt64_ofInt16]
  refine Meets.ite (fun _ => hsigned 4 reads_readBe32 hr ?_) fun _ => ?_
  · intro w
    rw [toInt64_ofInt32]
  refine Meets.ite (fun _ => hsigned 8 reads_readBe64 hr ?_) fun _ => ?_
  · intro w
    rw [toInt64_ofInt64]
  exact setFailed_meets hr

theorem readFloat32_refines (out : UInt32) :
    Refines (readFloat32 out) (false, out) (fun v => (true, v)) Reader.readFloat32 := by
  refine refines_tag ?_
  intro t r hr
  refine Meets.ite (fun _ => Meets.number reads_readBe32 hr ?_) fun _ => ?_
  · intro w r' hr'
    show Meets _ _ _ _ (some (UInt32.ofNat w.toNat, r'.unread))
    rw [UInt32.ofNat_toNat]
    exact Meets.here hr' w
  refine Meets.ite (fun _ => Meets.number reads_readBe64 hr ?_) fun _ => ?_
  · intro w r' hr'
    exact Meets.here hr' (doubleToFloat w.toNat)
  exact setFailed_meets hr

theorem readBytes_meets (len : Nat) (out : Bytes) (hr : r.Live) :
    Meets (false, out) (fun v => (true, v)) r (readBytes len out r) (r.unread.take len) := by
  refine Meets.need hr ?_ ?_
  · intro hn
    have htake : r.unread.take len = some (r.buf.slice r.off len, (r.move len).unread) := by
      rw [Reader.take, if_pos (by rw [length_unread]; omega), unread_move]
      rfl
    rw [htake]
    refine ⟨len, hn, .inl ⟨r.buf.slice r.off len, ?_, rfl⟩⟩
    simp [bytesAt, hn]
  · intro hn
    have hle := hr.le
    rw [Reader.take, if_neg (by rw [length_unread]; omega)]

theorem readStr_refines (out : Bytes) :
    Refines (readStr out) (false, out) (fun v => (true, v)) Reader.readStr := by
  refine refines_tag ?_
  intro t r hr
  refine Meets.ite (fun _ => readBytes_meets _ out hr) fun _ => ?_
  refine Meets.ite (fun _ => Meets.number reads_readU8 hr ?_) fun _ => ?_
  · intro w r' hr'
    exact readBytes_meets w.toNat out hr'
  refine Meets.ite (fun _ => Meets.number reads_readBe16 hr ?_) fun _ => ?_
  · intro w r' hr'
    exact readBytes_meets w.toNat out hr'
  exact setFailed_meets hr

theorem readBin_refines (out : Bytes) :
    Refines (readBin out) (false, out) (fun v => (true, v)) Reader.readBin := by
  refine refines_tag ?_
  intro t r hr
  refine Meets.ite (fun _ => Meets.number reads_readU8 hr ?_) fun _ => ?_
  · intro w r' hr'
    exact readBytes_meets w.toNat out hr'
  refine Meets.ite (fun _ => Meets.number reads_readBe16 hr ?_) fun _ => ?_
  · intro w r' hr'
    exact readBytes_meets w.toNat out hr'
  exact setFailed_meets hr

theorem readHeader_refines (fix tag16 tag32 : UInt8) (out : Nat) :
    Refines (readHeader fix tag16 tag32 out) (false, out) (fun v => (true, v))
      (Reader.readHeader fix tag16 tag32) := by
  refine refines_tag ?_
  intro t r hr
  refine Meets.ite (fun _ => Meets.here hr (t &&& 0x0f).toNat) fun _ => ?_
  refine Meets.ite (fun _ => Meets.plain reads_readBe16 hr fun _ => rfl) fun _ => ?_
  refine Meets.ite (fun _ => Meets.plain reads_readBe32 hr fun _ => rfl) fun _ => ?_
  exact setFailed_meets hr

theorem readArrayHeader_refines (out : Nat) :
    Refines (readArrayHeader out) (false, out) (fun v => (true, v)) Reader.readArrayHeader :=
  readHeader_refines 0x90 0xdc 0xdd out

theorem readMapHeader_refines (out : Nat) :
    Refines (readMapHeader out) (false, out) (fun v => (true, v)) Reader.readMapHeader :=
  readHeader_refines 0x80 0xde 0xdf out

end

end ReaderState
end Msgpack
end Reticulum
