import Reticulum.Rlr.Life

/-!
# The radio makes up no packet

Every packet that a device takes in is one frame it has received, or two halves with one sequence
number, the first received not long before and kept, with no other half in between. This holds over
whole lives, whatever frames come in and from however many senders.
-/

namespace Reticulum
namespace Radio

/-- A frame that `read_pending` looks into. -/
def Reception.Taken (f : Reception) : Prop :=
  f.readOk = true ∧ 2 ≤ f.bytes.length ∧ f.bytes.length ≤ bufSize

/-- A half of a split packet. -/
def Reception.Half (f : Reception) : Prop := f.Taken ∧ f.bytes.byteAt 0 &&& flagSplit ≠ 0

def Reception.payload (f : Reception) : Bytes := f.bytes.sliceFrom 1

def Reception.seq (f : Reception) : UInt8 := seqOf (f.bytes.byteAt 0)

/-- This half, stored at `t`, is pending. -/
structure Reassembly.Holds (s : Reassembly) (f : Reception) (t : Nat) : Prop where
  seq : s.splitSeq = f.seq
  ms : s.splitMs = millis t
  front : s.splitBuf.front s.splitLen = .ok f.payload
  len : s.splitLen = f.payload.length

/-- All that a call of `read_pending` can do. -/
inductive Reads (s : Reassembly) (call : Call) : Int × Bytes → Reassembly → Prop
  | nothing {n : Int} (hn : n ≤ 0) (h : ∀ f, call.reception = some f → ¬f.Half) :
    Reads s call (n, []) (expire s call.checkedAt)
  | whole {f : Reception} (hrec : call.reception = some f) (htaken : f.Taken) (h : ¬f.Half) :
    Reads s call (f.payload.length, f.payload) (expire s call.checkedAt)
  | first {f : Reception} {s' : Reassembly} (hrec : call.reception = some f) (h : f.Half)
    (hfree : (expire s call.checkedAt).splitSeq = noSeq ∨
      (expire s call.checkedAt).splitSeq ≠ f.seq)
    (hs' : s'.Holds f call.storedAt) : Reads s call (0, []) s'
  | second {f : Reception} {half : Bytes} {s' : Reassembly} (hrec : call.reception = some f)
    (h : f.Half) (hsome : (expire s call.checkedAt).splitSeq ≠ noSeq)
    (hseq : (expire s call.checkedAt).splitSeq = f.seq)
    (hhalf : (expire s call.checkedAt).splitBuf.front (expire s call.checkedAt).splitLen =
      .ok half)
    (hs' : s'.splitSeq = noSeq) :
    Reads s call ((expire s call.checkedAt).splitLen + f.payload.length, half ++ f.payload) s'
  | tooLong {f : Reception} {s' : Reassembly} (hrec : call.reception = some f) (h : f.Half)
    (hlen : (expire s call.checkedAt).splitLen + f.payload.length > maxPayload)
    (hs' : s'.splitSeq = noSeq) : Reads s call (0, []) s'

theorem Reception.length_payload (f : Reception) : f.payload.length = f.bytes.length - 1 := by
  simp [Reception.payload, Bytes.sliceFrom]

/-- A frame that is not looked into. -/
theorem reads_nothing {s s' : Reassembly} {call : Call} {result : Int × Bytes} {f : Reception}
    (hrec : call.reception = some f) (hf : ¬f.Taken)
    (h : readPending s 512 call = .ok (result, s')) : Reads s call result s' := by
  have hnone : ∀ f', call.reception = some f' → ¬f'.Half := by
    intro f' hf' hhalf
    rw [hrec] at hf'
    cases hf'
    exact hf hhalf.1
  unfold readPending at h
  simp only [hrec] at h
  by_cases hzero : f.bytes.length = 0
  · rw [if_pos hzero] at h
    cases h
    exact .nothing le_rfl hnone
  rw [if_neg hzero] at h
  by_cases hlong : f.bytes.length > bufSize
  · rw [if_pos hlong] at h
    cases h
    exact .nothing (by decide) hnone
  rw [if_neg hlong, if_pos] at h
  · cases h
    exact .nothing le_rfl hnone
  · by_contra hgood
    simp only [Bool.or_eq_true, Bool.not_eq_true', decide_eq_true_eq, not_or, not_lt,
      Bool.not_eq_false] at hgood
    exact hf ⟨hgood.1, hgood.2, not_lt.mp hlong⟩

theorem reads_of_readPending {s s' : Reassembly} {call : Call} {result : Int × Bytes}
    (h : readPending s 512 call = .ok (result, s')) : Reads s call result s' := by
  cases hrec : call.reception with
  | none =>
    unfold readPending at h
    simp only [hrec, Except.ok.injEq, Prod.mk.injEq] at h
    obtain ⟨rfl, rfl⟩ := h
    exact .nothing le_rfl (by simp [hrec])
  | some f =>
  by_cases htaken : f.Taken
  swap
  · exact reads_nothing hrec htaken h
  have hlen := f.length_payload
  have hread : (!f.readOk || decide (f.bytes.length < 2)) = false := by
    rw [htaken.1, decide_eq_false (not_lt.mpr htaken.2.1)]
    rfl
  have hpos := htaken.2.1
  have hmax : f.bytes.length ≤ 512 := htaken.2.2
  unfold readPending at h
  simp only [hrec] at h
  rw [if_neg (by omega), if_neg (not_lt.mpr htaken.2.2),
    if_neg (Bool.eq_false_iff.mp hread)] at h
  change (if f.bytes.byteAt 0 &&& flagSplit ≠ 0 then _ else _) = _ at h
  by_cases hsplit : f.bytes.byteAt 0 &&& flagSplit ≠ 0
  swap
  · rw [if_neg hsplit, if_neg (by omega)] at h
    have hall : f.payload.take (f.bytes.length - 1) = f.payload := by
      rw [← hlen]
      exact List.take_length
    change (memcpy 512 0 (f.payload.take (f.bytes.length - 1)) >>= _) = _ at h
    rw [hall, memcpy_eq (by omega), ← hlen] at h
    cases h
    exact .whole hrec htaken fun hhalf => hsplit hhalf.2
  have hhalf : f.Half := ⟨htaken, hsplit⟩
  have hroom : f.payload.length ≤ bufSize := by
    show _ ≤ 512
    omega
  obtain ⟨buf, hwrite, hfront⟩ := write_eq (expire s call.checkedAt).splitBuf hroom
  rw [if_pos hsplit] at h
  by_cases hfree : (expire s call.checkedAt).splitSeq = noSeq
  · rw [if_pos hfree, if_neg (by show ¬_ > 512; omega)] at h
    change ((expire s call.checkedAt).splitBuf.write f.payload >>= _) = _ at h
    rw [hwrite, ← hlen] at h
    cases h
    exact .first hrec hhalf (.inl hfree) ⟨rfl, rfl, hfront, rfl⟩
  rw [if_neg hfree] at h
  by_cases hsame : (f.bytes.byteAt 0 >>> 4) &&& 0x0F = (expire s call.checkedAt).splitSeq
  swap
  · rw [if_neg hsame] at h
    change ((expire s call.checkedAt).splitBuf.write f.payload >>= _) = _ at h
    rw [hwrite, ← hlen] at h
    cases h
    exact .first hrec hhalf (.inr (Ne.symm hsame)) ⟨rfl, rfl, hfront, rfl⟩
  rw [if_pos hsame, ← hlen] at h
  by_cases htotal : (expire s call.checkedAt).splitLen + f.payload.length > maxPayload
  · rw [if_pos (.inr htotal)] at h
    cases h
    exact .tooLong hrec hhalf htotal rfl
  · have hfit : (expire s call.checkedAt).splitLen + f.payload.length ≤ 508 := not_lt.mp htotal
    rw [if_neg (not_or.mpr ⟨by omega, htotal⟩)] at h
    obtain ⟨half, hhalf', h⟩ := bind_eq_ok h
    have hhalflen : half.length ≤ 508 := by
      unfold SplitBuf.front at hhalf'
      split at hhalf'
      · rw [← Except.ok.inj hhalf', List.length_take]
        omega
      · cases hhalf'
    change (memcpy 512 0 half >>= fun first => memcpy 512 _ f.payload >>= _) = _ at h
    rw [memcpy_eq (by omega), memcpy_eq (by omega)] at h
    cases h
    exact .second hrec hhalf hfree hsame.symm hhalf' rfl

theorem expire_cases (s : Reassembly) (t : Nat) : (expire s t).splitSeq = noSeq ∨
    expire s t = s ∧ (s.splitSeq ≠ noSeq → millis t - s.splitMs ≤ 500) := by
  unfold expire
  split
  · exact .inl rfl
  · rename_i h
    refine .inr ⟨rfl, fun hseq => ?_⟩
    rw [not_and] at h
    exact UInt32.not_lt.mp (h hseq)

end Radio

namespace Firmware
open Radio

/-- No half of a split packet is received in this act, and what is pending stays. -/
def Act.Quiet : Act → Prop
  | .powerOn _ => False
  | .loop i => ∀ call f, i.rx = some call → call.reception = some f → ¬f.Half
  | .requestWrite _ _ => True

/-- A packet comes from the frame received in this call, and perhaps from one received before. -/
inductive JoinedOf (rs : List (Rec Device Act)) (call : Call) : Bytes → Prop
  | whole {f : Reception} (hrec : call.reception = some f) (htaken : f.Taken) (h : ¬f.Half) :
    JoinedOf rs call f.payload
  | halves {before between : List (Rec Device Act)} {r : Rec Device Act} {i : LoopInput}
    {call₁ : Call} {f₁ f : Reception} (hrs : rs = before ++ r :: between) (hr : r.act = .loop i)
    (hrx : i.rx = some call₁) (hkept : heard r.pre.reassembly i.rx = none)
    (hrec₁ : call₁.reception = some f₁) (h₁ : f₁.Half)
    (hquiet : ∀ r' ∈ between, r'.act.Quiet) (hrec : call.reception = some f) (h : f.Half)
    (hseq : f₁.seq = f.seq)
    (htime : Radio.millis call.checkedAt - Radio.millis call₁.storedAt ≤ 500) :
    JoinedOf rs call (f₁.payload ++ f.payload)

/-- What is pending was received in one of these acts, and no half since. -/
def Pending (rs : List (Rec Device Act)) (s : Reassembly) : Prop :=
  s.splitSeq = noSeq ∨ ∃ before r between i call f, rs = before ++ r :: between ∧
    r.act = .loop i ∧ i.rx = some call ∧ heard r.pre.reassembly i.rx = none ∧
    call.reception = some f ∧ f.Half ∧ (∀ r' ∈ between, r'.act.Quiet) ∧ s.Holds f call.storedAt

variable {rs : List (Rec Device Act)} {s : Reassembly}

theorem Pending.quiet (h : Pending rs s) {r : Rec Device Act} (hr : r.act.Quiet) :
    Pending (rs ++ [r]) s := by
  rcases h with hnone | ⟨before, r₁, between, i, call, f, rfl, hr₁, hrx, hkept, hrec, hf, hq, hs⟩
  · exact .inl hnone
  refine .inr ⟨before, r₁, between ++ [r], i, call, f, by simp, hr₁, hrx, hkept, hrec, hf, ?_, hs⟩
  intro r' hr'
  rcases List.mem_append.mp hr' with hr' | hr'
  · exact hq r' hr'
  · rw [List.mem_singleton.mp hr']
    exact hr

theorem Pending.expire (h : Pending rs s) (t : Nat) : Pending rs (expire s t) := by
  rcases expire_cases s t with hnone | ⟨hsame, -⟩
  · exact .inl hnone
  · rw [hsame]
    exact h

theorem heard_eq {i : LoopInput} {call : Call} {n : Int} {buf : Bytes} {s' : Reassembly}
    (hrx : i.rx = some call) (hread : readPending s 512 call = .ok ((n, buf), s')) :
    heard s i.rx = if 0 < n then some buf else none := by
  simp [heard, hrx, hread]

/-- The second half joins what was kept of the first. -/
theorem Pending.joined (h : Pending rs s) {call : Call} {f : Reception} {half : Bytes}
    (hrec : call.reception = some f) (hf : f.Half)
    (hsome : (Radio.expire s call.checkedAt).splitSeq ≠ noSeq)
    (hseq : (Radio.expire s call.checkedAt).splitSeq = f.seq)
    (hhalf : (Radio.expire s call.checkedAt).splitBuf.front
      (Radio.expire s call.checkedAt).splitLen = .ok half) :
    JoinedOf rs call (half ++ f.payload) := by
  rcases expire_cases s call.checkedAt with hnone | ⟨hsame, htime⟩
  · exact absurd hnone hsome
  rw [hsame] at hsome hseq hhalf
  rcases h with hnone | ⟨before, r, between, i, call₁, f₁, hrs, hr, hrx, hkept, hrec₁, hf₁, hq, hs⟩
  · exact absurd hnone hsome
  cases hs.front.symm.trans hhalf
  have hdiff := htime hsome
  rw [hs.ms] at hdiff
  exact .halves hrs hr hrx hkept hrec₁ hf₁ hq hrec hf (hs.seq.symm.trans hseq) hdiff

/-- What a call of `read_pending` makes of what is pending, and of the packet it delivers. -/
theorem Pending.reads (h : Pending rs s) {r : Rec Device Act} {i : LoopInput} {call : Call}
    (hr : r.act = .loop i) (hpre : r.pre.reassembly = s) (hrx : i.rx = some call) {n : Int}
    {buf : Bytes} {s' : Reassembly} (hread : readPending s 512 call = .ok ((n, buf), s')) :
    Pending (rs ++ [r]) s' ∧ (0 < n → JoinedOf rs call buf) := by
  have hheard := heard_eq hrx hread
  cases reads_of_readPending hread with
  | nothing hn hnone =>
    refine ⟨(h.expire _).quiet ?_, fun hpos => by omega⟩
    rw [hr]
    intro call' f hrx' hrec
    cases hrx.symm.trans hrx'
    exact hnone f hrec
  | whole hrec htaken hwhole =>
    refine ⟨(h.expire _).quiet ?_, fun _ => .whole hrec htaken hwhole⟩
    rw [hr]
    intro call' f' hrx' hrec'
    cases hrx.symm.trans hrx'
    cases hrec.symm.trans hrec'
    exact hwhole
  | first hrec hf hfree hs' =>
    refine ⟨.inr ⟨rs, r, [], i, call, _, rfl, hr, hrx, ?_, hrec, hf, by simp, hs'⟩, by simp⟩
    rw [hpre, hheard]
    rfl
  | second hrec hf hsome hseq hhalf hs' =>
    exact ⟨.inl hs', fun _ => h.joined hrec hf hsome hseq hhalf⟩
  | tooLong hrec hf hlen hs' => exact ⟨.inl hs', by simp⟩

variable [CryptoLib] {fw : FwVersion} {d₀ d : Device}

theorem Looped.reads {i : LoopInput} {out : LoopOutput} {d' : Device} {ticked : Transport}
    {replies : List Bytes} (h : Looped fw d i out d' ticked replies) :
    i.rx = none ∧ d'.reassembly = d.reassembly ∨ ∃ call n buf, i.rx = some call ∧
      readPending d.reassembly 512 call = .ok ((n, buf), d'.reassembly) := by
  have hreceive := h.receive
  unfold Firmware.receive at hreceive
  cases hrx : i.rx with
  | none =>
    simp only [hrx, Except.ok.injEq, Prod.mk.injEq] at hreceive
    exact .inl ⟨rfl, hreceive.2.1.symm⟩
  | some call =>
    simp only [hrx] at hreceive
    obtain ⟨⟨⟨n, buf⟩, s'⟩, hread, hrest⟩ := bind_eq_ok hreceive
    dsimp only at hrest
    have hsame : s' = d'.reassembly := by
      split at hrest
      · obtain ⟨t, -, hrest⟩ := bind_eq_ok hrest
        cases hrest
        rfl
      · cases hrest
        rfl
    exact .inr ⟨call, n, buf, rfl, hsame ▸ hread⟩

theorem pending_of_run (hrun : Run (Lives fw) d₀ rs d) (h₀ : d₀.reassembly.splitSeq = noSeq) :
    Pending rs d.reassembly := by
  induction hrun with
  | nil => exact .inl h₀
  | @snoc rs s s' a hrun hact ih =>
    cases a with
    | powerOn i =>
      obtain ⟨telDest, hset⟩ := setUp_of_setup (ok_of_lift hact)
      rw [hset.reassembly]
      exact .inl rfl
    | requestWrite q saves =>
      obtain ⟨⟨response, d₁⟩, hwrite, hact⟩ := map_eq_ok hact
      cases hact
      obtain ⟨bytes, -, hd⟩ := map_eq_ok hwrite
      cases hd
      exact ih.quiet trivial
    | loop i =>
      obtain ⟨⟨out, d₁⟩, hloop, hact⟩ := map_eq_ok hact
      cases hact
      obtain ⟨ticked, replies, hlooped⟩ := looped_of_loop hloop
      rcases hlooped.reads with ⟨hrx, hsame⟩ | ⟨call, n, buf, hrx, hread⟩
      · rw [hsame]
        refine ih.quiet ?_
        intro call f hrx'
        cases hrx.symm.trans hrx'
      · exact (ih.reads (r := ⟨s, .loop i, d₁⟩) rfl rfl hrx hread).1

/-- Whatever frames come in, each packet that a loop hands to the node is the payload of the frame
it has just received, or that of the half it has just received, behind that of the last half before
it, which has the same sequence number, came not 500 ms ago and is not yet used. -/
theorem packets_joined {flash : Fs} {first : SetupInput} (hsetup : setup flash first = .ok d₀)
    (hrun : Run (Lives fw) d₀ rs d) {i : LoopInput} {wire : Bytes}
    (hheard : heard d.reassembly i.rx = some wire) :
    ∃ call, i.rx = some call ∧ JoinedOf rs call wire := by
  obtain ⟨telDest, hset⟩ := setUp_of_setup hsetup
  have hpending : Pending rs d.reassembly := by
    refine pending_of_run hrun ?_
    rw [hset.reassembly]
    rfl
  cases hrx : i.rx with
  | none =>
    rw [hrx] at hheard
    cases hheard
  | some call =>
    obtain ⟨⟨n, buf⟩, s', hread⟩ := readPending_inBounds d.reassembly 512 call
    rw [heard_eq hrx hread] at hheard
    split at hheard
    · rename_i hpos
      cases hheard
      exact ⟨call, rfl, (hpending.reads (r := ⟨d, .loop i, d⟩) rfl rfl hrx hread).2 hpos⟩
    · cases hheard

end Firmware

namespace Firmware
open Vectors
attribute [local instance] lib

/-- Two halves in two loops of Bob's device. -/
theorem packets_joined_bob : ∃ d₀ d call, setup empty bobStarts = .ok d₀ ∧
    act fwTest d₀ (.loop (busy 10 [0x51, 8, 7])) = .ok d ∧ (busy 20 [0x51, 9]).rx = some call ∧
    JoinedOf [⟨d₀, .loop (busy 10 [0x51, 8, 7]), d⟩] call [8, 7, 9] := by
  obtain ⟨d₀, hd₀, h₀⟩ := setup_returns derivesKeys_lib stored_empty (i := bobStarts) ⟨rfl, rfl⟩
  have hclears : (Act.loop (busy 10 [0x51, 8, 7])).Clears := by
    intro calls hcalls
    cases hcalls
  obtain ⟨d, hd, -⟩ :=
    act_returns (show fwTest.length < 256 by decide) derivesKeys_lib h₀ hclears
  have hheard : heard d.reassembly (busy 20 [0x51, 9]).rx = some [8, 7, 9] := by
    obtain ⟨telDest, hset⟩ := setUp_of_setup hd₀
    obtain ⟨⟨out, d₁⟩, hloop, h⟩ := map_eq_ok hd
    cases h
    obtain ⟨ticked, replies, hlooped⟩ := looped_of_loop hloop
    rcases hlooped.reads with ⟨hrx, -⟩ | ⟨call, n, buf, hrx, hread⟩
    · cases hrx
    cases hrx
    rw [hset.reassembly] at hread
    have hafter : (Radio.readPending noReassembly 512 ⟨some ⟨[0x51, 8, 7], true⟩, 10, 10⟩).map
        (fun p => heard p.2 (busy 20 [0x51, 9]).rx) = .ok (some [8, 7, 9]) := by
      decide +kernel
    rw [hread] at hafter
    exact Except.ok.inj hafter
  obtain ⟨call, hrx, hjoined⟩ := packets_joined hd₀ (.single (R := Lives fwTest) hd) hheard
  exact ⟨d₀, d, call, hd₀, hd, hrx, hjoined⟩

end Firmware
end Reticulum
