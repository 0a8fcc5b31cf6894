import Reticulum.Rns.MsgpackRefines

/-!
# Skipping on the reader object

`skip_value` looks at the tag and branches on it whatever the error flag says. It refines the
`skip_value` of `Msgpack`, and the bound on its depth is never met.
-/

namespace Reticulum
namespace Msgpack

namespace ReaderState

/-! ### Skipping -/

theorem peekType_run (r : ReaderState) : peekType r = some (r.unread.peekType, r) := by
  show (if r.buf.length ≤ r.off then (pure .invalid : Call ElemType)
    else byteAt r.off >>= fun t => pure (ElemType.ofTag t)) r = _
  by_cases h : r.buf.length ≤ r.off
  · have hnil : r.unread = ⟨[]⟩ := by rw [unread, List.drop_eq_nil_of_le h]
    rw [if_pos h, hnil]
    rfl
  · have hlt : r.off < r.buf.length := by omega
    have hdrop : r.unread.rest = r.buf[r.off] :: r.buf.drop (r.off + 1) :=
      List.drop_eq_getElem_cons hlt
    have hbyte : byteAt r.off r = some (r.buf[r.off], r) :=
      byteAt_unread (i := 0) (by rw [hdrop]; rfl)
    rw [if_neg h, run_bind, hbyte, Reader.peekType, hdrop]
    rfl

/-- `Meets` for a call that has nothing but its success to return. -/
def MeetsSkip (r : ReaderState) (res : Option (Bool × ReaderState)) (o : Option Reader) : Prop :=
  Meets false (fun _ : Unit => true) r res (o.map fun r => ((), r))

namespace MeetsSkip
variable {α β : Type} {r : ReaderState} {o : Option Reader}

theorem of_read {m : Call (Bool × α)} {out : α} {val : β → α} {o : Option (β × Reader)}
    (hr : r.Live) (h : Meets (false, out) (fun v => (true, val v)) r (m r) o) :
    MeetsSkip r ((m >>= fun p => pure p.1) r) (o.map Prod.snd) := by
  have hunit : (o.map Prod.snd).map (fun r => ((), r)) = o.bind fun v => some ((), v.2) := by
    cases o <;> rfl
  rw [MeetsSkip, hunit]
  refine h.bind (fun _ => rfl) ?_
  intro n v hn _
  exact .here (hr.move hn) ()

/-- A header, and the loop over the elements it counts. -/
theorem header {m : Call (Bool × Nat)} {out : Nat} {o : Option (Nat × Reader)}
    {loop : Nat → Call Bool} {g : Nat → Reader → Option Reader}
    (h : Meets (false, out) (fun v => (true, v)) r (m r) o)
    (hloop : ∀ n v, r.off + n ≤ r.buf.length → o = some (v, (r.move n).unread) →
      MeetsSkip (r.move n) (loop v (r.move n)) (g v (r.move n).unread)) :
    MeetsSkip r ((m >>= fun p => if (!p.1) = true then pure false else loop p.2) r)
      (o.bind fun v => g v.1 v.2) := by
  rw [MeetsSkip, Option.map_bind]
  exact h.bind (fun _ => rfl) hloop

theorem seq {m m' : Call Bool} {f : Reader → Option Reader} (h : MeetsSkip r (m r) o)
    (hnext : ∀ n, r.off + n ≤ r.buf.length →
      MeetsSkip (r.move n) (m' (r.move n)) (f (r.move n).unread)) :
    MeetsSkip r ((m >>= fun b => if (!b) = true then pure false else m') r) (o.bind f) := by
  have hunit : (o.bind f).map (fun r => ((), r)) =
      (o.map fun r => ((), r)).bind fun v => (f v.2).map fun r => ((), r) := by
    cases o <;> rfl
  rw [MeetsSkip, hunit]
  exact h.bind (fun _ => rfl) fun n _ hn _ => hnext n hn

theorem times {turn : Call Bool} {f : Reader → Option Reader} {m : Nat}
    (h : ∀ r : ReaderState, r.Live → r.unread.rest.length ≤ m →
      MeetsSkip r (turn r) (f r.unread)) (n : Nat) {r : ReaderState} (hr : r.Live)
    (hm : r.unread.rest.length ≤ m) :
    MeetsSkip r (ReaderState.times turn n r) (Reader.times f n r.unread) := by
  induction n generalizing r with
  | zero => exact Meets.here hr ()
  | succ n ih =>
    refine seq (h r hr hm) ?_
    intro k hk
    exact ih (hr.move hk) (length_unread_move.trans hm)

end MeetsSkip

/-- What its calls of itself have to do, on readers with less left to read. -/
theorem skipBody_meets {skip : Call Bool} {f : Reader → Option Reader} {r : ReaderState}
    (hr : r.Live) (h : ∀ r₁ : ReaderState, r₁.Live →
      r₁.unread.rest.length < r.unread.rest.length → MeetsSkip r₁ (skip r₁) (f r₁.unread)) :
    MeetsSkip r (skipBody skip r) (Reader.skipBody f r.unread) := by
  rw [skipBody, run_bind, peekType_run, Option.bind_some, Reader.skipBody]
  dsimp only
  cases ht : r.unread.peekType with
  | nil => exact readNil_refines.live r hr
  | bool => exact .of_read hr ((readBool_refines false).live r hr)
  | uint => exact .of_read hr ((readUint_refines 0).live r hr)
  | intSigned => exact .of_read hr ((readInt_refines 0).live r hr)
  | float32 => exact .of_read hr ((readFloat32_refines 0).live r hr)
  | float64 => exact .of_read hr ((readFloat32_refines 0).live r hr)
  | str => exact .of_read hr ((readStr_refines []).live r hr)
  | bin => exact .of_read hr ((readBin_refines []).live r hr)
  | array =>
    refine .header ((readArrayHeader_refines 0).live r hr) ?_
    intro n v hn hv
    have hlt := Reader.readHeader_lt hv
    exact .times (fun r₁ hr₁ hle => h r₁ hr₁ (by omega)) v (hr.move hn) le_rfl
  | map =>
    refine .header ((readMapHeader_refines 0).live r hr) ?_
    intro n v hn hv
    have hlt := Reader.readHeader_lt hv
    refine .times ?_ v (hr.move hn) le_rfl
    intro r₁ hr₁ hle
    refine .seq (h r₁ hr₁ (by omega)) ?_
    intro k hk
    have hmove : (r₁.move k).unread.rest.length ≤ r₁.unread.rest.length := length_unread_move
    exact h _ (hr₁.move hk) (by omega)
  | invalid => exact setFailed_meets hr

theorem skipWithin_meets {depth : Nat} {r : ReaderState} (hr : r.Live)
    (hd : r.unread.rest.length < depth) :
    MeetsSkip r (skipWithin depth r) (Reader.skipWithin depth r.unread) := by
  induction depth generalizing r with
  | zero => omega
  | succ depth ih =>
    refine skipBody_meets hr ?_
    intro r₁ hr₁ hlt
    exact ih hr₁ (by omega)

theorem bind_dead {α : Type} {r : ReaderState} {m : Call (Bool × α)} {f : Bool × α → Call Bool}
    {p : Bool × α} (hm : m r = some (p, r)) (hf : f p r = some (false, r)) :
    (m >>= f) r = some (false, r) := by
  rw [run_bind, hm]
  exact hf

theorem skipBody_dead (skip : Call Bool) {r : ReaderState} (hr : r.ok = false) :
    skipBody skip r = some (false, r) := by
  rw [skipBody, run_bind, peekType_run, Option.bind_some]
  dsimp only
  cases r.unread.peekType with
  | nil => exact readNil_refines.dead r hr
  | bool => exact bind_dead ((readBool_refines false).dead r hr) rfl
  | uint => exact bind_dead ((readUint_refines 0).dead r hr) rfl
  | intSigned => exact bind_dead ((readInt_refines 0).dead r hr) rfl
  | float32 => exact bind_dead ((readFloat32_refines 0).dead r hr) rfl
  | float64 => exact bind_dead ((readFloat32_refines 0).dead r hr) rfl
  | str => exact bind_dead ((readStr_refines []).dead r hr) rfl
  | bin => exact bind_dead ((readBin_refines []).dead r hr) rfl
  | array => exact bind_dead ((readArrayHeader_refines 0).dead r hr) rfl
  | map => exact bind_dead ((readMapHeader_refines 0).dead r hr) rfl
  | invalid =>
    obtain ⟨buf, off, ok⟩ := r
    cases hr
    rfl

theorem skipValue_refines : Refines skipValue false (fun _ : Unit => true)
    fun r => r.skipValue.map fun r => ((), r) := by
  constructor
  · intro r hr
    have hrun : skipValue r = skipWithin (r.unread.rest.length + 1) r := by
      rw [length_unread]
      rfl
    rw [hrun]
    exact skipWithin_meets hr (Nat.lt_succ_self _)
  · intro r hr
    exact skipBody_dead _ hr

/-! ### No bound on the depth -/

/-- `skip` and `skip'` move over the same things, and end, where less than `n` bytes are left. -/
def AgreeBelow (n : Nat) (f : Reader → Option Reader) (skip skip' : Call Bool) : Prop :=
  ∀ r : ReaderState, r.Live → r.unread.rest.length < n →
    MeetsSkip r (skip r) (f r.unread) ∧ skip r = skip' r

namespace AgreeBelow
variable {n : Nat} {f : Reader → Option Reader} {skip skip' : Call Bool} {r : ReaderState}

/-- What follows a call that has succeeded is left with no more to read. -/
theorem seq (h : AgreeBelow n f skip skip') {m m' : Call Bool} (hr : r.Live)
    (hn : r.unread.rest.length < n)
    (hnext : ∀ r₁ : ReaderState, r₁.Live → r₁.unread.rest.length < n → m r₁ = m' r₁) :
    (skip >>= fun b => if (!b) = true then pure false else m) r =
      (skip' >>= fun b => if (!b) = true then pure false else m') r := by
  obtain ⟨⟨k, hk, ⟨v, hm, -⟩ | ⟨hm, -⟩⟩, heq⟩ := h r hr hn
  · rw [run_bind, run_bind, ← heq, hm]
    exact hnext _ (hr.move hk) (length_unread_move.trans_lt hn)
  · rw [run_bind, run_bind, ← heq, hm]
    rfl

theorem times (h : AgreeBelow n f skip skip') (k : Nat) (hr : r.Live)
    (hn : r.unread.rest.length < n) :
    ReaderState.times skip k r = ReaderState.times skip' k r := by
  induction k generalizing r with
  | zero => rfl
  | succ k ih => exact h.seq hr hn fun r₁ hr₁ hn₁ => ih hr₁ hn₁

theorem pairs (h : AgreeBelow n f skip skip') :
    AgreeBelow n (fun r => (f r).bind f)
      (skip >>= fun b => if (!b) = true then pure false else skip)
      (skip' >>= fun b => if (!b) = true then pure false else skip') := by
  intro r hr hn
  refine ⟨.seq (h r hr hn).1 ?_, h.seq hr hn fun r₁ hr₁ hn₁ => (h r₁ hr₁ hn₁).2⟩
  intro k hk
  exact (h _ (hr.move hk) (length_unread_move.trans_lt hn)).1

/-- A header, then loops that agree. -/
theorem header {m : Call (Bool × Nat)} {g : Reader → Option (Nat × Reader)} {out : Nat}
    (hm : Refines m (false, out) (fun v => (true, v)) g)
    (hg : ∀ {r r' : Reader} {v : Nat}, g r = some (v, r') → r'.rest.length < r.rest.length)
    (hr : r.Live) {loop loop' : Nat → Call Bool}
    (h : ∀ (v : Nat) (r₁ : ReaderState), r₁.Live →
      r₁.unread.rest.length < r.unread.rest.length → loop v r₁ = loop' v r₁) :
    (m >>= fun p => if (!p.1) = true then pure false else loop p.2) r =
      (m >>= fun p => if (!p.1) = true then pure false else loop' p.2) r := by
  obtain ⟨k, hk, ⟨v, hread, ho⟩ | ⟨hread, -⟩⟩ := hm.live r hr
  · rw [run_bind, run_bind, hread]
    exact h v _ (hr.move hk) (hg ho)
  · rw [run_bind, run_bind, hread]
    rfl

end AgreeBelow

theorem skipBody_congr {n : Nat} {f : Reader → Option Reader} {skip skip' : Call Bool}
    (h : AgreeBelow n f skip skip') {r : ReaderState} (hr : r.Live)
    (hn : r.unread.rest.length ≤ n) : skipBody skip r = skipBody skip' r := by
  rw [skipBody, skipBody, run_bind, run_bind, peekType_run, Option.bind_some, Option.bind_some]
  dsimp only
  cases r.unread.peekType with
  | array =>
    refine AgreeBelow.header (readArrayHeader_refines 0) Reader.readHeader_lt hr ?_
    intro v r₁ hr₁ hlt
    exact h.times v hr₁ (by omega)
  | map =>
    refine AgreeBelow.header (readMapHeader_refines 0) Reader.readHeader_lt hr ?_
    intro v r₁ hr₁ hlt
    exact h.pairs.times v hr₁ (by omega)
  | _ => rfl

/-- More depth than there are bytes changes nothing. -/
theorem skipWithin_enough {depth depth' : Nat} {r : ReaderState} (hr : r.Live)
    (h : r.unread.rest.length < depth) (h' : r.unread.rest.length < depth') :
    skipWithin depth r = skipWithin depth' r := by
  induction depth generalizing depth' r with
  | zero => omega
  | succ depth ih =>
    obtain ⟨depth', rfl⟩ : ∃ k, depth' = k + 1 := ⟨depth' - 1, by omega⟩
    refine skipBody_congr (f := Reader.skipWithin depth) ?_ hr le_rfl
    intro r₁ hr₁ hlt
    exact ⟨skipWithin_meets hr₁ (by omega), ih hr₁ (by omega) (by omega)⟩

/-- `skip_value` as the source has it, with no bound on its recursion. -/
theorem skipValue_eq {r : ReaderState} (hr : r.off ≤ r.buf.length) :
    skipValue r = skipBody skipValue r := by
  cases hok : r.ok with
  | false => rw [skipBody_dead _ hok, skipValue_refines.dead r hok]
  | true =>
    have hrun : ∀ r : ReaderState, skipValue r = skipWithin (r.unread.rest.length + 1) r := by
      intro r
      rw [length_unread]
      rfl
    rw [hrun r]
    refine skipBody_congr (f := Reader.skipWithin r.unread.rest.length) ?_ ⟨hok, hr⟩ le_rfl
    intro r₁ hr₁ hlt
    refine ⟨skipWithin_meets hr₁ hlt, ?_⟩
    rw [hrun r₁]
    exact skipWithin_enough hr₁ hlt (Nat.lt_succ_self _)

end ReaderState
end Msgpack
end Reticulum
