import Reticulum.Rlr.Radio

/-!
# Frames join to the packet they were cut from

`transmit` cuts, `read_pending` joins. What the receiver had pending before is out of the way when
the first half comes in, and frames that are not split pass between the halves.
-/

namespace Reticulum
namespace Radio

def seqOf (header : UInt8) : UInt8 := (header >>> 4) &&& 0x0F

/-- A frame that is not one of a split packet's: it says so, or it is not delivered at all. -/
def Reception.Whole (f : Reception) : Prop :=
  f.readOk = false ∨ f.bytes.length < 2 ∨ f.bytes.byteAt 0 &&& flagSplit = 0

/-- What a frame that is not split comes to. -/
def delivered (call : Call) : Int × Bytes :=
  match call.reception with
  | none => (0, [])
  | some f =>
    if f.readOk ∧ 2 ≤ f.bytes.length then ((f.bytes.length - 1 : Nat), f.bytes.sliceFrom 1)
    else (0, [])

theorem memcpy_eq {size offset : Nat} {src : Bytes} (h : offset + src.length ≤ size) :
    memcpy size offset src = .ok src := if_pos h

theorem write_eq (dst : SplitBuf) {src : Bytes} (h : src.length ≤ bufSize) :
    ∃ buf, dst.write src = .ok buf ∧ buf.front src.length = .ok src := by
  refine ⟨_, dif_pos h, ?_⟩
  rw [SplitBuf.front, if_pos h, List.take_left]

/-- No `memcpy` of `read_pending` leaves its arrays, whatever has been received. -/
theorem readPending_inBounds (s : Reassembly) (bufsize : Nat) (call : Call) :
    ∃ result s', readPending s bufsize call = .ok (result, s') := by
  unfold readPending
  generalize expire s call.checkedAt = s
  cases call.reception with
  | none => exact ⟨_, _, rfl⟩
  | some f =>
    dsimp only
    have hpayload : (f.bytes.sliceFrom 1).length = f.bytes.length - 1 := by
      simp [Bytes.sliceFrom]
    split
    · exact ⟨_, _, rfl⟩
    split
    · exact ⟨_, _, rfl⟩
    split
    · exact ⟨_, _, rfl⟩
    rename_i hsize _
    have hhalf : (f.bytes.sliceFrom 1).length ≤ bufSize := by omega
    obtain ⟨buf, hwrite, -⟩ := write_eq s.splitBuf hhalf
    split
    · split
      · split
        · exact ⟨_, _, rfl⟩
        · rw [hwrite]
          exact ⟨_, _, rfl⟩
      split
      · split
        · exact ⟨_, _, rfl⟩
        · -- what is joined fits the caller's buffer, and its first half the split buffer
          rename_i hfits
          rw [not_or] at hfits
          have hlen : s.splitLen ≤ bufSize := by
            have hmax : maxPayload ≤ bufSize := by decide
            omega
          have hfront : s.splitBuf.front s.splitLen = .ok (s.splitBuf.1.take s.splitLen) :=
            if_pos hlen
          have hfirst : memcpy bufsize 0 (s.splitBuf.1.take s.splitLen) = .ok _ :=
            memcpy_eq (by rw [List.length_take]; omega)
          have hsecond : memcpy bufsize s.splitLen (f.bytes.sliceFrom 1) = .ok _ :=
            memcpy_eq (by omega)
          simp only [hfront, bind, Except.bind, hfirst, hsecond]
          exact ⟨_, _, rfl⟩
      · rw [hwrite]
        exact ⟨_, _, rfl⟩
    · rw [memcpy_eq (by rw [List.length_take]; split <;> omega)]
      exact ⟨_, _, rfl⟩

/-- A frame that is not split is delivered whatever is pending, which it leaves alone. -/
theorem readPending_whole {s : Reassembly} {bufsize : Nat} {call : Call} (hbuf : 254 ≤ bufsize)
    (h : ∀ f, call.reception = some f → f.Whole ∧ f.bytes.length ≤ singleMtu) :
    readPending s bufsize call = .ok (delivered call, expire s call.checkedAt) := by
  unfold readPending delivered
  cases hrec : call.reception with
  | none => rfl
  | some f =>
    obtain ⟨hwhole, hlen⟩ := h f hrec
    have hmtu : f.bytes.length ≤ 255 := hlen
    have hsize : ¬f.bytes.length > bufSize := by
      show ¬f.bytes.length > 512
      omega
    dsimp only
    by_cases hgood : f.readOk = true ∧ 2 ≤ f.bytes.length
    swap
    · have hbad : (!f.readOk || decide (f.bytes.length < 2)) = true := by
        simp only [Bool.or_eq_true, Bool.not_eq_true', decide_eq_true_eq]
        by_cases hok : f.readOk = true
        · right
          have hlt : ¬2 ≤ f.bytes.length := fun h2 => hgood ⟨hok, h2⟩
          omega
        · left
          simpa using hok
      rw [if_neg hgood]
      by_cases hzero : f.bytes.length = 0
      · rw [if_pos hzero]
      · rw [if_neg hzero, if_neg hsize, if_pos hbad]
    · obtain ⟨hok, h2⟩ := hgood
      have hunsplit : f.bytes.byteAt 0 &&& flagSplit = 0 := by
        rcases hwhole with hfail | hshort | hflag
        · rw [hok] at hfail
          cases hfail
        · omega
        · exact hflag
      have hpayload : (f.bytes.sliceFrom 1).length = f.bytes.length - 1 := by
        simp [Bytes.sliceFrom]
      have hroom : ¬f.bytes.length - 1 > bufsize := by omega
      have htake : (f.bytes.sliceFrom 1).take (f.bytes.length - 1) = f.bytes.sliceFrom 1 :=
        List.take_of_length_le (le_of_eq hpayload)
      rw [if_neg (by omega), if_neg hsize, if_neg (by simp [hok]; omega),
        if_neg (by simp [hunsplit]), if_neg hroom, htake, memcpy_eq (by omega), if_pos ⟨hok, h2⟩]
      rfl

/-- The halves of a split packet, whatever the first half meets. -/
theorem readPending_first {s : Reassembly} {bufsize : Nat} {call : Call} {header : UInt8}
    {half : Bytes} (hrec : call.reception = some ⟨header :: half, true⟩) (hhalf : half ≠ [])
    (hlen : half.length ≤ 254) (hsplit : header &&& flagSplit ≠ 0)
    (hfree : (expire s call.checkedAt).splitSeq = noSeq ∨
      (expire s call.checkedAt).splitSeq ≠ seqOf header) :
    ∃ s', readPending s bufsize call = .ok ((0, []), s') ∧ s'.splitSeq = seqOf header ∧
      s'.splitLen = half.length ∧ s'.splitMs = millis call.storedAt ∧
      s'.splitBuf.front half.length = .ok half := by
  have hroom : half.length ≤ bufSize := by
    show half.length ≤ 512
    omega
  have hsize : ¬half.length + 1 > bufSize := by
    show ¬half.length + 1 > 512
    omega
  have hpos : 0 < half.length := List.length_pos_iff.mpr hhalf
  obtain ⟨buf, hwrite, hfront⟩ := write_eq (expire s call.checkedAt).splitBuf hroom
  refine ⟨⟨buf, half.length, seqOf header, millis call.storedAt⟩, ?_, rfl, rfl, rfl, hfront⟩
  have hslice : Bytes.sliceFrom (header :: half) 1 = half := rfl
  have hhdr : Bytes.byteAt (header :: half) 0 = header := rfl
  unfold readPending
  rw [hrec]
  dsimp only
  rw [List.length_cons, if_neg (by omega), if_neg hsize, if_neg (by simp; omega), hslice, hhdr,
    if_pos hsplit, Nat.add_sub_cancel]
  by_cases hnone : (expire s call.checkedAt).splitSeq = noSeq
  · rw [if_pos hnone, if_neg (by omega), hwrite]
    rfl
  · have hne := hfree.resolve_left hnone
    rw [if_neg hnone, if_neg (fun h => hne h.symm), hwrite]
    rfl

theorem readPending_second {s : Reassembly} {bufsize : Nat} {call : Call} {header : UInt8}
    {first half : Bytes} (hrec : call.reception = some ⟨header :: half, true⟩) (hhalf : half ≠ [])
    (hlen : half.length ≤ 254) (hsplit : header &&& flagSplit ≠ 0)
    (hseq : (expire s call.checkedAt).splitSeq = seqOf header) (hseq' : seqOf header ≠ noSeq)
    (hsplitLen : (expire s call.checkedAt).splitLen = first.length)
    (hfront : (expire s call.checkedAt).splitBuf.front first.length = .ok first)
    (hmax : first.length + half.length ≤ maxPayload) (hbuf : maxPayload ≤ bufsize) :
    ∃ s', readPending s bufsize call = .ok (((first ++ half).length, first ++ half), s') ∧
      s'.splitSeq = noSeq := by
  have hsize : ¬half.length + 1 > bufSize := by
    show ¬half.length + 1 > 512
    omega
  have hpos : 0 < half.length := List.length_pos_iff.mpr hhalf
  refine ⟨{ expire s call.checkedAt with splitSeq := noSeq, splitLen := 0 }, ?_, rfl⟩
  have hslice : Bytes.sliceFrom (header :: half) 1 = half := rfl
  have hhdr : Bytes.byteAt (header :: half) 0 = header := rfl
  have hseq'' : (header >>> 4) &&& 0x0F = (expire s call.checkedAt).splitSeq := hseq.symm
  have hsome : (expire s call.checkedAt).splitSeq ≠ noSeq := by
    rw [hseq]
    exact hseq'
  unfold readPending
  rw [hrec]
  dsimp only
  rw [List.length_cons, if_neg (by omega), if_neg hsize, if_neg (by simp; omega), hslice, hhdr,
    if_pos hsplit, Nat.add_sub_cancel, if_neg hsome, if_pos hseq'', hsplitLen, if_neg (by omega)]
  simp only [hfront, bind, Except.bind, memcpy_eq (show 0 + first.length ≤ bufsize by omega),
    memcpy_eq (show first.length + half.length ≤ bufsize by omega), List.length_append]

/-- Nothing expires within 500 ms of when it was stored. -/
theorem expire_eq_self {s : Reassembly} {t₀ t : Nat} (hms : s.splitMs = millis t₀) (h₀ : t₀ ≤ t)
    (h : t ≤ t₀ + 500) : expire s t = s := by
  have hdiff : (millis t - millis t₀).toNat ≤ 500 := by
    rw [millis, millis, UInt32.toNat_sub, UInt32.toNat_ofNat', UInt32.toNat_ofNat']
    omega
  have hle : ¬millis t - s.splitMs > 500 := by
    rw [hms, gt_iff_lt, UInt32.lt_iff_toNat_lt]
    show ¬500 < (millis t - millis t₀).toNat
    omega
  exact if_neg fun hexp => hle hexp.2

theorem readAll_whole {s : Reassembly} {bufsize t₀ : Nat} {calls : List Call}
    (hbuf : 254 ≤ bufsize) (hms : s.splitMs = millis t₀)
    (hcalls : ∀ c ∈ calls, (∀ f, c.reception = some f → f.Whole ∧ f.bytes.length ≤ singleMtu) ∧
      t₀ ≤ c.checkedAt ∧ c.checkedAt ≤ t₀ + 500) :
    readAll s bufsize calls = .ok (calls.map delivered, s) := by
  induction calls with
  | nil => rfl
  | cons c calls ih =>
    obtain ⟨hwhole, h₀, h₁⟩ := hcalls c (by simp)
    have hrest := ih fun c' hc' => hcalls c' (by simp [hc'])
    have hone := readPending_whole (s := s) hbuf hwhole
    rw [expire_eq_self hms h₀ h₁] at hone
    simp only [readAll, hone, bind, Except.bind, hrest, List.map_cons]

theorem readAll_append {s s₁ s₂ : Reassembly} {bufsize : Nat} {calls calls' : List Call}
    {results results' : List (Int × Bytes)} (h : readAll s bufsize calls = .ok (results, s₁))
    (h' : readAll s₁ bufsize calls' = .ok (results', s₂)) :
    readAll s bufsize (calls ++ calls') = .ok (results ++ results', s₂) := by
  induction calls generalizing s results with
  | nil =>
    cases h
    exact h'
  | cons c calls ih =>
    rw [readAll] at h
    obtain ⟨⟨result, s'⟩, hone, h⟩ := bind_eq_ok h
    obtain ⟨⟨rest, s''⟩, hrest, h⟩ := bind_eq_ok h
    cases h
    simp only [List.cons_append, readAll, hone, bind, Except.bind, ih hrest]

/-! ### The sender -/

theorem header_facts : ∀ n < 256, UInt8.ofNat n &&& 0xF0 &&& flagSplit = 0 ∧
    ((UInt8.ofNat n &&& 0xF0) ||| flagSplit) &&& flagSplit ≠ 0 ∧
    seqOf ((UInt8.ofNat n &&& 0xF0) ||| flagSplit) ≠ noSeq := by
  decide +kernel

theorem txFrame_eq {header : UInt8} {payload : Bytes} (state : Int) (h : payload.length ≤ 254) :
    txFrame header payload state = .ok (state, [header :: payload]) := by
  have hroom : ¬payload.length + 1 > txBufSize := by
    show ¬payload.length + 1 > 256
    omega
  have hfit : 1 + payload.length ≤ txBufSize := by
    show 1 + payload.length ≤ 256
    omega
  rw [txFrame, if_neg hroom, memcpy_eq hfit]
  rfl

/-- No `memcpy` of `transmit` leaves `tx_buf`, whatever is to be sent. -/
theorem transmit_inBounds (online : Bool) (random : Nat) (state₁ state₂ : Int) (buf : Bytes) :
    ∃ result, transmit online random state₁ state₂ buf = .ok result := by
  unfold transmit
  split
  · exact ⟨_, rfl⟩
  split
  · exact ⟨_, rfl⟩
  rename_i hmax
  have hlen : buf.length ≤ 508 := by
    have h : maxPayload = 508 := rfl
    omega
  dsimp only
  split
  · rename_i hshort
    rw [txFrame_eq state₁ hshort]
    exact ⟨_, rfl⟩
  · have hfirst : (buf.take (singleMtu - 1)).length ≤ 254 := List.length_take_le _ _
    have hsecond : (buf.drop (singleMtu - 1)).length ≤ 254 := by
      rw [List.length_drop]
      show buf.length - 254 ≤ 254
      omega
    rw [txFrame_eq state₁ hfirst]
    simp only [bind, Except.bind]
    split
    · rw [txFrame_eq state₂ hsecond]
      exact ⟨_, rfl⟩
    · exact ⟨_, rfl⟩

theorem transmit_short (random : Nat) {p : Bytes} (hshort : p.length ≤ 254) :
    transmit true random errNone errNone p =
      .ok (p.length, [(UInt8.ofNat (random % 256) &&& 0xF0) :: p]) := by
  have hfits : ¬p.length > maxPayload := by
    show ¬p.length > 508
    omega
  have hmtu : p.length ≤ singleMtu - 1 := hshort
  rw [transmit, if_neg (by simp), if_neg hfits]
  simp only [if_pos hmtu, txFrame_eq errNone hshort, bind, Except.bind, if_true]

theorem transmit_long (random : Nat) {p : Bytes} (hlong : 254 < p.length)
    (hmax : p.length ≤ maxPayload) : transmit true random errNone errNone p =
      .ok (p.length, [((UInt8.ofNat (random % 256) &&& 0xF0) ||| flagSplit) :: p.take 254,
        ((UInt8.ofNat (random % 256) &&& 0xF0) ||| flagSplit) :: p.drop 254]) := by
  have hmtu : ¬p.length ≤ singleMtu - 1 := Nat.not_le.mpr hlong
  have hsecond : (p.drop (singleMtu - 1)).length ≤ 254 := by
    have h508 : p.length ≤ 508 := hmax
    rw [List.length_drop]
    show p.length - 254 ≤ 254
    omega
  have h₁ := fun header => @txFrame_eq header (p.take (singleMtu - 1)) errNone
    (List.length_take_le _ _)
  have h₂ := fun header => @txFrame_eq header (p.drop (singleMtu - 1)) errNone hsecond
  rw [transmit, if_neg (by simp), if_neg (Nat.not_lt.mpr hmax)]
  simp only [if_neg hmtu, h₁, h₂, bind, Except.bind, if_true]
  rfl

theorem length_frame_le (header : UInt8) {payload : Bytes} (h : payload.length ≤ 254) :
    (header :: payload).length ≤ singleMtu := by
  show payload.length + 1 ≤ 255
  omega

/-- Nothing is pending, or what is has expired, or it is of another packet. -/
def Free (s : Reassembly) (t : Nat) (header : UInt8) : Prop :=
  s.splitSeq = noSeq ∨ millis t - s.splitMs > 500 ∨ s.splitSeq ≠ seqOf header

theorem Free.expire {s : Reassembly} {t : Nat} {header : UInt8} (h : Free s t header) :
    (Radio.expire s t).splitSeq = noSeq ∨ (Radio.expire s t).splitSeq ≠ seqOf header := by
  unfold Radio.expire
  split
  · exact .inl rfl
  · rename_i hkept
    rcases h with hnone | hold | hother
    · exact .inl hnone
    · left
      by_contra hsome
      exact hkept ⟨hsome, hold⟩
    · exact .inr hother

/-- The frame of a short packet. -/
theorem readAll_single (s : Reassembly) {bufsize : Nat} {header : UInt8} {p : Bytes} {c : Call}
    (hbuf : 254 ≤ bufsize) (hp : 1 ≤ p.length) (hlen : p.length ≤ 254)
    (hsingle : header &&& flagSplit = 0) (hc : c.reception = some ⟨header :: p, true⟩) :
    readAll s bufsize [c] = .ok ([((p.length : Int), p)], expire s c.checkedAt) := by
  have hwhole : ∀ f, c.reception = some f → f.Whole ∧ f.bytes.length ≤ singleMtu := by
    intro f hf
    rw [hc] at hf
    cases hf
    exact ⟨.inr (.inr hsingle), length_frame_le header hlen⟩
  have hdelivered : delivered c = ((p.length : Int), p) := by
    rw [delivered, hc]
    simp only [List.length_cons, true_and, if_pos (show 2 ≤ p.length + 1 by omega)]
    rfl
  have hread := readPending_whole (s := s) hbuf hwhole
  rw [hdelivered] at hread
  simp only [readAll, hread, bind, Except.bind]

/-- The two frames of a split packet, read with what may come between them. -/
theorem readAll_split {s : Reassembly} {bufsize : Nat} {header : UInt8} {first second : Bytes}
    {c₁ c₂ : Call} {mids : List Call} (hbuf : maxPayload ≤ bufsize)
    (hfirst : first ≠ []) (hsecond : second ≠ []) (hlen₁ : first.length ≤ 254)
    (hlen₂ : second.length ≤ 254) (hsplit : header &&& flagSplit ≠ 0)
    (hseq : seqOf header ≠ noSeq) (hc₁ : c₁.reception = some ⟨header :: first, true⟩)
    (hc₂ : c₂.reception = some ⟨header :: second, true⟩) (hfree : Free s c₁.checkedAt header)
    (hmids : ∀ c ∈ mids, (∀ f, c.reception = some f → f.Whole ∧ f.bytes.length ≤ singleMtu) ∧
      c₁.storedAt ≤ c.checkedAt ∧ c.checkedAt ≤ c₁.storedAt + 500)
    (h₀ : c₁.storedAt ≤ c₂.checkedAt) (h₁ : c₂.checkedAt ≤ c₁.storedAt + 500) :
    ∃ s', readAll s bufsize (c₁ :: (mids ++ [c₂])) = .ok ((0, []) :: (mids.map delivered ++
        [(((first ++ second).length : Int), first ++ second)]), s') ∧ s'.splitSeq = noSeq := by
  have hmax : maxPayload = 508 := rfl
  obtain ⟨s₁, hread₁, hs₁, hlen, hms, hfront⟩ :=
    @readPending_first s bufsize c₁ header first hc₁ hfirst hlen₁ hsplit hfree.expire
  have hread := readAll_whole (show 254 ≤ bufsize by omega) hms hmids
  have hkept := expire_eq_self hms h₀ h₁
  obtain ⟨s₂, hread₂, hs₂⟩ := @readPending_second s₁ bufsize c₂ header first second hc₂ hsecond
    hlen₂ hsplit (by rw [hkept, hs₁]) hseq (by rw [hkept, hlen]) (by rw [hkept, hfront])
    (by omega) hbuf
  have hlast : readAll s₁ bufsize [c₂] =
      .ok ([(((first ++ second).length : Int), first ++ second)], s₂) := by
    simp only [readAll, hread₂, bind, Except.bind]
  refine ⟨s₂, ?_, hs₂⟩
  have hrest := readAll_append hread hlast
  simp only [readAll, hread₁, bind, Except.bind, hrest]

/-- What `transmit` puts on the air, `read_pending` gives back: a short packet in one frame, a long
one from its two halves and whatever whole frames come between them, and no copy on either side
leaves its arrays. -/
theorem framing_round_trip (random bufsize : Nat) (p : Bytes) (hp : 1 ≤ p.length)
    (hmax : p.length ≤ maxPayload) (hbuf : maxPayload ≤ bufsize) (s : Reassembly) :
    ∃ frames, transmit true random errNone errNone p = .ok (p.length, frames) ∧
      (∀ f ∈ frames, f.length ≤ singleMtu) ∧
      (p.length ≤ 254 → ∃ f, frames = [f] ∧ ∀ c : Call, c.reception = some ⟨f, true⟩ →
        ∃ s', readAll s bufsize [c] = .ok ([((p.length : Int), p)], s')) ∧
      (254 < p.length → ∃ f₁ f₂, frames = [f₁, f₂] ∧ ∀ (c₁ c₂ : Call) (mids : List Call),
        c₁.reception = some ⟨f₁, true⟩ → c₂.reception = some ⟨f₂, true⟩ →
        Free s c₁.checkedAt (Bytes.byteAt f₁ 0) →
        (∀ c ∈ mids, (∀ f, c.reception = some f → f.Whole ∧ f.bytes.length ≤ singleMtu) ∧
          c₁.storedAt ≤ c.checkedAt ∧ c.checkedAt ≤ c₁.storedAt + 500) →
        c₁.storedAt ≤ c₂.checkedAt → c₂.checkedAt ≤ c₁.storedAt + 500 →
        ∃ s', readAll s bufsize (c₁ :: (mids ++ [c₂])) =
          .ok ((0, []) :: (mids.map delivered ++ [((p.length : Int), p)]), s') ∧
          s'.splitSeq = noSeq) ∧
      (∀ (s : Reassembly) (bufsize : Nat) (c : Call), ∃ result s',
        readPending s bufsize c = .ok (result, s')) ∧
      (∀ (online : Bool) (random : Nat) (state₁ state₂ : Int) (buf : Bytes), ∃ result,
        transmit online random state₁ state₂ buf = .ok result) := by
  obtain ⟨hsingle, hsplit, hseq⟩ := header_facts (random % 256) (Nat.mod_lt _ (by decide))
  have h508 : maxPayload = 508 := rfl
  by_cases hshort : p.length ≤ 254
  · refine ⟨_, transmit_short random hshort, ?_, ?_, fun h => by omega, readPending_inBounds,
      transmit_inBounds⟩
    · intro f hf
      rw [List.mem_singleton.mp hf]
      exact length_frame_le _ hshort
    · intro _
      refine ⟨_, rfl, ?_⟩
      intro c hc
      exact ⟨_, readAll_single s (by omega) hp hshort hsingle hc⟩
  · have hfirst : (p.take 254).length ≤ 254 := List.length_take_le _ _
    have hsecond : (p.drop 254).length ≤ 254 := by
      rw [List.length_drop]
      omega
    refine ⟨_, transmit_long random (by omega) hmax, ?_, fun h => absurd h hshort, ?_,
      readPending_inBounds, transmit_inBounds⟩
    · intro f hf
      rcases List.mem_pair.mp hf with rfl | rfl
      · exact length_frame_le _ hfirst
      · exact length_frame_le _ hsecond
    · intro _
      refine ⟨_, _, rfl, ?_⟩
      intro c₁ c₂ mids hc₁ hc₂ hfree hmids h₀ h₁
      have hne₁ : p.take 254 ≠ [] := by
        intro h
        have hlen := congrArg List.length h
        rw [List.length_take, List.length_nil] at hlen
        omega
      have hne₂ : p.drop 254 ≠ [] := by
        intro h
        have hlen := congrArg List.length h
        rw [List.length_drop, List.length_nil] at hlen
        omega
      have hread := readAll_split hbuf hne₁ hne₂ hfirst hsecond hsplit hseq hc₁ hc₂ hfree hmids
        h₀ h₁
      rw [List.take_append_drop] at hread
      exact hread

def idle : Reassembly := ⟨⟨List.replicate bufSize 0, List.length_replicate⟩, 0, noSeq, 0⟩

theorem framing_round_trip_long : ∃ f₁ f₂ s',
    transmit true 48 errNone errNone (List.replicate 300 7) = .ok (300, [f₁, f₂]) ∧
    readAll idle 508 [⟨some ⟨f₁, true⟩, 0, 0⟩, ⟨some ⟨f₂, true⟩, 10, 10⟩] =
      .ok ([(0, []), (300, List.replicate 300 7)], s') ∧ s'.splitSeq = noSeq := by
  have hlen : (List.replicate 300 (7 : UInt8)).length = 300 := List.length_replicate
  obtain ⟨frames, hsend, -, -, hlong, -⟩ := framing_round_trip 48 508 (List.replicate 300 7)
    (by omega) (by rw [hlen]; decide) (by decide) idle
  obtain ⟨f₁, f₂, rfl, hread⟩ := hlong (by omega)
  obtain ⟨s', hread, hs'⟩ := hread ⟨some ⟨f₁, true⟩, 0, 0⟩ ⟨some ⟨f₂, true⟩, 10, 10⟩ [] rfl rfl
    (.inl rfl) (by simp) (Nat.zero_le 10) (show 10 ≤ 0 + 500 by omega)
  rw [hlen] at hsend hread
  exact ⟨f₁, f₂, s', hsend, hread, hs'⟩

end Radio
end Reticulum
