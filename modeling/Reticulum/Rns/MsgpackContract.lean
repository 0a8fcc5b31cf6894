import Reticulum.Lib.Run
import Reticulum.Rns.MsgpackSkipping

/-!
# The contract of the reader

Any calls on a reader, in any order. No call reaches outside the buffer, the offset only moves
forward, and after the first error nothing moves any more.
-/

namespace Reticulum
namespace Msgpack

/-- A call on a reader, with what its output argument holds. -/
inductive ReadCall where
  | readNil
  | readBool (out : Bool)
  | readUint (out : UInt64)
  | readInt (out : Int64)
  | readFloat32 (out : UInt32)
  | readStr (out : Bytes)
  | readBin (out : Bytes)
  | readArrayHeader (out : Nat)
  | readMapHeader (out : Nat)
  | skipValue
  | peekType
deriving DecidableEq

/-- What a call returns. -/
inductive Ret where
  | bool (b : Bool)
  | type (t : ElemType)
deriving DecidableEq

namespace ReadCall

/-- What a call returns, and the call with what its output argument holds then. -/
def exec : ReadCall → Call (Ret × ReadCall)
  | .readNil => do
    let b ← ReaderState.readNil
    return (.bool b, .readNil)
  | .readBool out => do
    let p ← ReaderState.readBool out
    return (.bool p.1, .readBool p.2)
  | .readUint out => do
    let p ← ReaderState.readUint out
    return (.bool p.1, .readUint p.2)
  | .readInt out => do
    let p ← ReaderState.readInt out
    return (.bool p.1, .readInt p.2)
  | .readFloat32 out => do
    let p ← ReaderState.readFloat32 out
    return (.bool p.1, .readFloat32 p.2)
  | .readStr out => do
    let p ← ReaderState.readStr out
    return (.bool p.1, .readStr p.2)
  | .readBin out => do
    let p ← ReaderState.readBin out
    return (.bool p.1, .readBin p.2)
  | .readArrayHeader out => do
    let p ← ReaderState.readArrayHeader out
    return (.bool p.1, .readArrayHeader p.2)
  | .readMapHeader out => do
    let p ← ReaderState.readMapHeader out
    return (.bool p.1, .readMapHeader p.2)
  | .skipValue => do
    let b ← ReaderState.skipValue
    return (.bool b, .skipValue)
  | .peekType => do
    let t ← ReaderState.peekType
    return (.type t, .peekType)

/-- Every call but `peek_type` refines a read that succeeds or fails. -/
theorem exec_refines {call : ReadCall} (h : call ≠ .peekType) :
    ∃ (β : Type) (mk : β → Ret × ReadCall) (f : Reader → Option (β × Reader)),
      ReaderState.Refines call.exec (.bool false, call) mk f ∧ ∀ v, (mk v).1 = .bool true := by
  cases call with
  | readNil => exact ⟨_, _, _, ReaderState.readNil_refines.map _, fun _ => rfl⟩
  | readBool out => exact ⟨_, _, _, (ReaderState.readBool_refines out).map _, fun _ => rfl⟩
  | readUint out => exact ⟨_, _, _, (ReaderState.readUint_refines out).map _, fun _ => rfl⟩
  | readInt out => exact ⟨_, _, _, (ReaderState.readInt_refines out).map _, fun _ => rfl⟩
  | readFloat32 out => exact ⟨_, _, _, (ReaderState.readFloat32_refines out).map _, fun _ => rfl⟩
  | readStr out => exact ⟨_, _, _, (ReaderState.readStr_refines out).map _, fun _ => rfl⟩
  | readBin out => exact ⟨_, _, _, (ReaderState.readBin_refines out).map _, fun _ => rfl⟩
  | readArrayHeader out =>
    exact ⟨_, _, _, (ReaderState.readArrayHeader_refines out).map _, fun _ => rfl⟩
  | readMapHeader out =>
    exact ⟨_, _, _, (ReaderState.readMapHeader_refines out).map _, fun _ => rfl⟩
  | skipValue => exact ⟨_, _, _, ReaderState.skipValue_refines.map _, fun _ => rfl⟩
  | peekType => exact absurd rfl h

theorem exec_peekType (r : ReaderState) :
    exec .peekType r = some ((.type r.unread.peekType, .peekType), r) := by
  show (ReaderState.peekType r).bind _ = _
  rw [ReaderState.peekType_run]
  rfl

end ReadCall

/-! ### Runs -/

/-- A call that was made: what it returned, and its output argument afterwards. -/
structure Made where
  call : ReadCall
  ret : Ret
  after : ReadCall

/-- The call runs to its end, with every access inside the buffer. -/
def Executes (r : ReaderState) (made : Made) (r' : ReaderState) : Prop :=
  made.call.exec r = some ((made.ret, made.after), r')

instance (r r' : ReaderState) (made : Made) : Decidable (Executes r made r') :=
  inferInstanceAs (Decidable (_ = _))

/-- Nothing but an offset past the end is ruled out. -/
def InBounds (buf : Bytes) (r : ReaderState) : Prop := r.buf = buf ∧ r.off ≤ buf.length

/-- What a call may do: look without moving; succeed, moving on; fail, moving on and setting the
error; or fail on an error that is already there. -/
inductive Acts (r : ReaderState) : Made → ReaderState → Prop
  | peek {t : ElemType} : Acts r ⟨.peekType, .type t, .peekType⟩ r
  | success {call after : ReadCall} {n : Nat} (hok : r.ok = true)
    (hn : r.off + n ≤ r.buf.length) : Acts r ⟨call, .bool true, after⟩ (r.move n)
  | failure {call : ReadCall} {n : Nat} (hok : r.ok = true) (hn : r.off + n ≤ r.buf.length) :
    Acts r ⟨call, .bool false, call⟩ (r.move n).failed
  | refused {call : ReadCall} (hok : r.ok = false) : Acts r ⟨call, .bool false, call⟩ r

section
variable {buf : Bytes} {r r' : ReaderState} {made : Made}

/-- Every call ends, and in one of these ways. -/
theorem exists_acts (h : InBounds buf r) (call : ReadCall) :
    ∃ made r', made.call = call ∧ Executes r made r' ∧ Acts r made r' := by
  obtain ⟨rfl, hle⟩ := h
  by_cases hpeek : call = .peekType
  · subst hpeek
    exact ⟨⟨.peekType, .type r.unread.peekType, .peekType⟩, r, rfl, ReadCall.exec_peekType r,
      .peek⟩
  obtain ⟨β, mk, f, hrefines, hmk⟩ := ReadCall.exec_refines hpeek
  cases hok : r.ok with
  | false => exact ⟨⟨call, .bool false, call⟩, r, rfl, hrefines.dead r hok, .refused hok⟩
  | true =>
    obtain ⟨n, hn, ⟨v, hm, -⟩ | ⟨hm, -⟩⟩ := hrefines.live r ⟨hok, hle⟩
    · refine ⟨⟨call, .bool true, (mk v).2⟩, _, rfl, ?_, .success hok hn⟩
      rw [Executes, hm, ← hmk v]
    · exact ⟨⟨call, .bool false, call⟩, _, rfl, hm, .failure hok hn⟩

theorem acts_of_executes (h : InBounds buf r) (he : Executes r made r') : Acts r made r' := by
  obtain ⟨made', r'', hcall, he', hacts⟩ := exists_acts h made.call
  obtain ⟨call, ret, after⟩ := made
  obtain ⟨call', ret', after'⟩ := made'
  obtain rfl : call' = call := hcall
  have heq := Option.some.inj (he.symm.trans he')
  obtain ⟨hret, rfl⟩ := Prod.mk.inj heq
  obtain ⟨rfl, rfl⟩ := Prod.mk.inj hret
  exact hacts

namespace Acts

theorem inBounds (h : Acts r made r') (hr : InBounds buf r) : InBounds buf r' := by
  obtain ⟨rfl, hle⟩ := hr
  cases h with
  | peek => exact ⟨rfl, hle⟩
  | success _ hn => exact ⟨rfl, hn⟩
  | failure _ hn => exact ⟨rfl, hn⟩
  | refused _ => exact ⟨rfl, hle⟩

theorem off_le (h : Acts r made r') : r.off ≤ r'.off := by
  cases h with
  | peek => exact le_rfl
  | success _ hn => exact Nat.le_add_right _ _
  | failure _ hn => exact Nat.le_add_right _ _
  | refused _ => exact le_rfl

/-- A call that returns false has not touched its output argument. -/
theorem of_false (h : Acts r made r') (hret : made.ret = .bool false) :
    made.after = made.call ∧ r'.ok = false := by
  cases h with
  | peek => cases hret
  | success _ hn => cases hret
  | failure _ hn => exact ⟨rfl, rfl⟩
  | refused hok => exact ⟨rfl, hok⟩

/-- After an error nothing happens any more. -/
theorem of_failed (h : Acts r made r') (hr : r.ok = false) :
    (made.call ≠ .peekType → made.ret = .bool false) ∧ made.after = made.call ∧ r' = r := by
  cases h with
  | peek => exact ⟨fun hne => absurd rfl hne, rfl, rfl⟩
  | success hok hn => simp [hr] at hok
  | failure hok hn => simp [hr] at hok
  | refused _ => exact ⟨fun _ => rfl, rfl, rfl⟩

end Acts

theorem inBounds_new (buf : Bytes) : InBounds buf (.new buf) := ⟨rfl, Nat.zero_le _⟩

theorem inBounds_of_run {rs : List (Rec ReaderState Made)} (hrun : Run Executes (.new buf) rs r) :
    InBounds buf r :=
  hrun.inv (inBounds_new buf) fun _ _ _ hr he => (acts_of_executes hr he).inBounds hr

end

/-- Every sequence of calls runs to its end with no access outside the buffer. The offset never
goes back nor past the end, a call that returns false leaves its output argument and an error, and
from the first such call on every read and skip returns false and nothing changes. -/
theorem reader_contract (buf : Bytes) :
    (∀ calls : List ReadCall, ∃ rs r, Run Executes (.new buf) rs r ∧
      rs.map (fun e => e.act.call) = calls) ∧
    ∀ rs r, Run Executes (.new buf) rs r →
      (∀ e ∈ rs, e.pre.off ≤ e.post.off ∧ e.post.off ≤ buf.length ∧
        (e.act.ret = .bool false → e.act.after = e.act.call ∧ e.post.ok = false)) ∧
      ∀ before e after, rs = before ++ e :: after → e.act.ret = .bool false → ∀ e' ∈ after,
        (e'.act.call ≠ .peekType → e'.act.ret = .bool false) ∧ e'.act.after = e'.act.call ∧
        e'.post.off = e.post.off := by
  refine ⟨?_, fun rs r hrun => ⟨?_, ?_⟩⟩
  · refine Run.exists_of_calls (inBounds_new buf) ?_
    intro r call hr
    obtain ⟨made, r', hcall, he, hacts⟩ := exists_acts hr call
    exact ⟨made, r', hcall, he, hacts.inBounds hr⟩
  · refine hrun.always (inBounds_new buf) ?_
    intro e he hr
    have hacts := acts_of_executes hr he
    have hpost := hacts.inBounds hr
    exact ⟨hpost, hacts.off_le, hpost.2, hacts.of_false⟩
  · rintro before e after rfl hret
    obtain ⟨hbefore, he, hafter⟩ := hrun.split_at
    have hpre := inBounds_of_run hbefore
    have hacts := acts_of_executes hpre he
    -- the error stays, and with it the whole reader
    refine hafter.always (P := fun r => r = e.post) rfl ?_
    intro e' he' heq
    have hacts' := acts_of_executes (heq ▸ hacts.inBounds hpre) he'
    obtain ⟨hfalse, hout, hpost⟩ := hacts'.of_failed (heq ▸ (hacts.of_false hret).2)
    have hsame : e'.post = e.post := hpost.trans heq
    exact ⟨hsame, hfalse, hout, congrArg ReaderState.off hsame⟩

/-- An array with its second element cut short, then two more calls. -/
theorem reader_contract_cut : ∃ rs r, Run Executes (.new [0x92, 1, 0xcd, 7]) rs r ∧
    rs.map (fun e => e.act.call) = [.skipValue, .readUint 5, .peekType] ∧
    ∀ e ∈ rs, e.act.after = e.act.call ∧ e.post.off = 3 := by
  obtain ⟨-, hall⟩ := reader_contract [0x92, 1, 0xcd, 7]
  have hskip : Executes (.new [0x92, 1, 0xcd, 7]) ⟨.skipValue, .bool false, .skipValue⟩
      ⟨[0x92, 1, 0xcd, 7], 3, false⟩ := by decide
  have huint : Executes ⟨[0x92, 1, 0xcd, 7], 3, false⟩ ⟨.readUint 5, .bool false, .readUint 5⟩
      ⟨[0x92, 1, 0xcd, 7], 3, false⟩ := by decide
  have hpeek : Executes ⟨[0x92, 1, 0xcd, 7], 3, false⟩ ⟨.peekType, .type .uint, .peekType⟩
      ⟨[0x92, 1, 0xcd, 7], 3, false⟩ := by decide
  have hrun := Run.cons hskip (Run.cons huint (Run.single hpeek))
  obtain ⟨-, hsticky⟩ := hall _ _ hrun
  have hafter := hsticky [] _ _ rfl rfl
  refine ⟨_, _, hrun, rfl, ?_⟩
  intro e he
  rcases List.mem_cons.mp he with rfl | he
  · exact ⟨rfl, rfl⟩
  · exact (hafter e he).2

end Msgpack
end Reticulum
