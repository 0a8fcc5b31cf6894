import Reticulum.Rns.MsgpackRefines
import Reticulum.Rns.MsgpackSkip

/-!
# What `read_int` accepts

It reads every integer encoding of the format that has a value below `2 ^ 63`, and no other bytes.
-/

namespace Reticulum
namespace Msgpack
open Endian MsgpackFormat

namespace Reader

theorem lt_of_form {v : Int} {bs : Bytes} (h : IntForm v bs) : -2 ^ 63 ≤ v ∧ v < 2 ^ 64 := by
  cases h <;> constructor <;> omega

/-- The one form that has values above `INT64_MAX`. -/
theorem uint64_of_large {v : Int} {bs : Bytes} (h : IntForm v bs) (hv : 2 ^ 63 ≤ v) :
    ∃ n : Nat, v = n ∧ n < 256 ^ 8 ∧ bs = 0xcf :: toBe 8 n := by
  cases h with
  | @uint64 n hn => exact ⟨n, rfl, hn, rfl⟩
  | _ => omega

theorem readInt_large {v : Int} {bs : Bytes} (t : Bytes) (h : IntForm v bs) (hv : 2 ^ 63 ≤ v) :
    readInt ⟨bs ++ t⟩ = none := by
  obtain ⟨n, rfl, hn, rfl⟩ := uint64_of_large h hv
  have hmax : 9223372036854775807 < n := by omega
  simpa [readInt, readBe_toBe t hn] using hmax

/-- The bytes no integer encoding starts with. -/
theorem readInt_otherTag {tag : UInt8} (t : Bytes) (hlo : 0x80 ≤ tag)
    (hmid : tag < 0xcc ∨ 0xd3 < tag) (hhi : tag < 0xe0) : readInt ⟨tag :: t⟩ = none := by
  have hlo' : ¬tag < 0x80 := UInt8.not_lt.mpr hlo
  have hhi' : ¬0xe0 ≤ tag := UInt8.not_le.mpr hhi
  have hne : ∀ b : UInt8, 0xcc ≤ b → b ≤ 0xd3 → tag ≠ b := by
    rintro b hb hb' rfl
    rcases hmid with hlt | hlt
    · exact UInt8.not_lt.mpr hb hlt
    · exact UInt8.not_lt.mpr hb' hlt
  simp only [readInt, readU8_cons, Option.bind_eq_bind, Option.bind_some, if_neg hlo', if_neg hhi',
    if_neg (hne 0xcc (by decide) (by decide)), if_neg (hne 0xcd (by decide) (by decide)),
    if_neg (hne 0xce (by decide) (by decide)), if_neg (hne 0xcf (by decide) (by decide)),
    if_neg (hne 0xd0 (by decide) (by decide)), if_neg (hne 0xd1 (by decide) (by decide)),
    if_neg (hne 0xd2 (by decide) (by decide)), if_neg (hne 0xd3 (by decide) (by decide))]

/-- No encoding goes on after another one. -/
theorem readInt_truncated {v : Int} {cut more : Bytes} (h : IntForm v (cut ++ more))
    (hmore : more ≠ []) : readInt ⟨cut⟩ = none := by
  cases hread : readInt ⟨cut⟩ with
  | none => rfl
  | some p =>
    exfalso
    obtain ⟨v', ⟨rest⟩⟩ := p
    obtain ⟨bs, hbs, htook⟩ := form_of_readInt hread
    have hcut : cut = bs ++ rest := htook
    -- the whole buffer is read in two ways
    have hsmall : v' < 2 ^ 63 := by
      by_contra hlarge
      have hnone := readInt_large rest hbs (by omega)
      rw [← hcut, hread] at hnone
      cases hnone
    have hshort := readInt_form (rest ++ more) hbs hsmall
    rw [← List.append_assoc, ← hcut] at hshort
    by_cases hv : v < 2 ^ 63
    · have hlong := readInt_form [] h hv
      rw [List.append_nil, hshort] at hlong
      have hrest : rest ++ more = [] := congrArg (fun p => p.2.rest) (Option.some.inj hlong)
      exact hmore (List.append_eq_nil_iff.mp hrest).2
    · have hnone := readInt_large [] h (by omega)
      rw [List.append_nil, hshort] at hnone
      cases hnone

/-- `read_int` reads whatever `read_uint` does, where it fits. -/
theorem readInt_of_readUint {r r' : Reader} {v : Nat} (h : r.readUint = some (v, r'))
    (hv : v < 2 ^ 63) : r.readInt = some ((v : Int), r') := by
  obtain ⟨bs, hform, htook⟩ := form_of_readUint h
  obtain ⟨rest⟩ := r
  obtain ⟨rest'⟩ := r'
  obtain rfl : rest = bs ++ rest' := htook
  exact readInt_form rest' hform (by omega)

end Reader

namespace ReaderState

/-- The call fails, and the error is set. -/
def Fails {α : Type} (call : α → Call (Bool × α)) (out : α) (r : ReaderState) : Prop :=
  ∃ r', call out r = some ((false, out), r') ∧ r'.ok = false

/-- A read that succeeds has started without an error. -/
theorem live_of_success {α : Type} {m : Call (Bool × α)} {out v : α} {r r' : ReaderState}
    (h : (need 1 >>= fun b => if (!b) = true then pure (false, out) else m) r =
      some ((true, v), r')) : r.Live := by
  rw [run_bind, need_run] at h
  split at h
  · cases h
  rename_i hok
  split at h
  · cases h
  · rename_i hle
    refine ⟨?_, by omega⟩
    simpa using hok

theorem toInt_ofInt {v : Int} (hlo : -2 ^ 63 ≤ v) (hhi : v < 2 ^ 63) : (Int64.ofInt v).toInt = v :=
  Int64.toInt_ofInt_of_le hlo hhi

/-- `read_int` returns the value of every encoding that has one in `int64_t`, and moves over just
that; it fails on the larger values of `uint64`, on every other tag and on every encoding cut short;
and it agrees with `read_uint`. -/
theorem readInt_decodes :
    (∀ pre bs t v out, IntForm v bs → v < 2 ^ 63 → ∃ w,
      readInt out ⟨pre ++ (bs ++ t), pre.length, true⟩ =
        some ((true, w), ⟨pre ++ (bs ++ t), pre.length + bs.length, true⟩) ∧ w.toInt = v) ∧
    (∀ pre t n out, 2 ^ 63 ≤ n → n < 2 ^ 64 →
      Fails readInt out ⟨pre ++ (0xcf :: toBe 8 n ++ t), pre.length, true⟩) ∧
    (∀ pre t tag out, 0x80 ≤ tag → tag < 0xcc ∨ 0xd3 < tag → tag < 0xe0 →
      Fails readInt out ⟨pre ++ tag :: t, pre.length, true⟩) ∧
    (∀ pre cut more v out, IntForm v (cut ++ more) → more ≠ [] →
      Fails readInt out ⟨pre ++ cut, pre.length, true⟩) ∧
    ∀ r r' out out' u, readUint out r = some ((true, u), r') → u.toNat < 2 ^ 63 → ∃ w,
      readInt out' r = some ((true, w), r') ∧ w.toInt = u.toNat := by
  have hfails : ∀ (pre t : Bytes) (out : Int64), Reader.readInt ⟨t⟩ = none →
      Fails readInt out ⟨pre ++ t, pre.length, true⟩ := by
    intro pre t out hnone
    refine (readInt_refines out).fails (live_at pre t) ?_
    rw [unread_at, hnone]
  refine ⟨?_, ?_, ?_, ?_, ?_⟩
  · intro pre bs t v out hform hv
    refine ⟨Int64.ofInt v, ?_, toInt_ofInt (Reader.lt_of_form hform).1 hv⟩
    exact (readInt_refines out).takes (live_at pre (bs ++ t)) (congrArg Reader.rest (unread_at _ _))
      (Reader.readInt_form t hform hv)
  · intro pre t n out hlo hhi
    exact hfails _ _ _ (Reader.readInt_large t (.uint64 hhi) (by omega))
  · intro pre t tag out hlo hmid hhi
    exact hfails _ _ _ (Reader.readInt_otherTag t hlo hmid hhi)
  · intro pre cut more v out hform hmore
    exact hfails _ _ _ (Reader.readInt_truncated hform hmore)
  · intro r r' out out' u hread hu
    have hr : r.Live := live_of_success hread
    obtain ⟨n, hn, ⟨v, hm, ho⟩ | ⟨hm, -⟩⟩ := (readUint_refines out).live r hr
    · rw [hm] at hread
      obtain ⟨hu', rfl⟩ := Prod.mk.inj (Option.some.inj hread)
      obtain ⟨-, rfl⟩ := Prod.mk.inj hu'
      obtain ⟨bs, hform, htook⟩ := Reader.form_of_readUint ho
      have hlt := (Reader.lt_of_form hform).2
      have hval : (UInt64.ofNat v).toNat = v := by
        rw [UInt64.toNat_ofNat']
        exact Nat.mod_eq_of_lt (by omega)
      rw [hval] at hu ⊢
      refine ⟨Int64.ofInt v, ?_, toInt_ofInt (by omega) (by omega)⟩
      exact (readInt_refines out').moves hr hn (Reader.readInt_of_readUint ho hu)
    · rw [hm] at hread
      cases hread

/-- A longitude in microdegrees as `int32`, then cut short; two buffers without an integer that
fits; and a number that both reads take. -/
theorem readInt_decodes_longitude :
    (∃ w, readInt 0 ⟨[0xd2, 0xf8, 0xb4, 0x07, 0x38, 0xc0], 0, true⟩ =
      some ((true, w), ⟨[0xd2, 0xf8, 0xb4, 0x07, 0x38, 0xc0], 5, true⟩) ∧
      w.toInt = -122419400) ∧
    Fails readInt 0 ⟨[0xd2, 0xf8, 0xb4], 0, true⟩ ∧
    Fails readInt 0 ⟨[0xcf, 0x80, 0, 0, 0, 0, 0, 0, 0], 0, true⟩ ∧
    Fails readInt 0 ⟨[0xc0], 0, true⟩ ∧
    ∃ w, readInt 0 ⟨[0xcd, 1, 2], 0, true⟩ = some ((true, w), ⟨[0xcd, 1, 2], 3, true⟩) ∧
      w.toInt = 258 := by
  obtain ⟨hform, hlarge, htag, hcut, huint⟩ := readInt_decodes
  have hint := @IntForm.int32 (-122419400) (by decide) (by decide)
  have hbytes : toBe 4 ((-122419400 : Int) % 256 ^ 4).toNat = [0xf8, 0xb4, 0x07, 0x38] := by decide
  rw [hbytes] at hint
  have hread : readUint 0 ⟨[0xcd, 1, 2], 0, true⟩ =
      some ((true, 258), ⟨[0xcd, 1, 2], 3, true⟩) := by decide
  refine ⟨?_, ?_, ?_, ?_, ?_⟩
  · exact hform [] _ [0xc0] _ 0 hint (by decide)
  · exact hcut [] [0xd2, 0xf8, 0xb4] [0x07, 0x38] _ 0 hint (by decide)
  · have hfails := hlarge [] [] (2 ^ 63) 0 (by decide) (by decide)
    have hbytes : toBe 8 (2 ^ 63) = [0x80, 0, 0, 0, 0, 0, 0, 0] := by decide
    rw [hbytes] at hfails
    exact hfails
  · exact htag [] [] 0xc0 0 (by decide) (by decide) (by decide)
  · exact huint _ _ 0 0 _ hread (by decide)

end ReaderState
end Msgpack
end Reticulum
