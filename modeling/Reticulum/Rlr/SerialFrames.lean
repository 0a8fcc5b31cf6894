import Reticulum.Lib.Mealy
import Reticulum.Rlr.Requests
import Reticulum.Rlr.SerialConsole

/-!
# Serial frames are taken as they were sent

Apart from what `handle_request` does, the adapter is a machine that reads bytes and puts out
requests. A stream of frames, with bad headers between them, gives exactly their payloads, however
it is cut into calls of `tick`.
-/

namespace Reticulum
namespace SerialConsole
open ConfigProtocol

/-- What a piece of the stream is: a frame, or a header that `tick` does not accept. -/
inductive Segment where
  | frame (payload : Bytes)
  | badHeader (hi lo : UInt8)

namespace Segment

def Valid : Segment → Prop
  | frame payload => 1 ≤ payload.length ∧ payload.length ≤ 1024
  | badHeader hi lo => hi.toNat * 256 + lo.toNat = 0 ∨ 1024 < hi.toNat * 256 + lo.toNat

def bytes : Segment → Bytes
  | frame payload =>
    UInt8.ofNat (payload.length / 256) :: UInt8.ofNat (payload.length % 256) :: payload
  | badHeader hi lo => [hi, lo]

def requests : Segment → List Bytes
  | frame payload => [payload]
  | badHeader _ _ => []

end Segment

/-- One byte, as far as the static variables and the request that it completes go. -/
def absorb (c : Console) (b : UInt8) : Console × List Bytes :=
  match c.state with
  | .lenHi => ({ c with expected := b.toUInt16 <<< 8, state := .lenLo }, [])
  | .lenLo =>
    let expected := c.expected ||| b.toUInt16
    if expected = 0 ∨ expected.toNat > maxFrameLen then ({ c with expected }.reset, [])
    else ({ c with expected, received := 0, state := .payload }, [])
  | .payload =>
    let c := c.put b
    if c.received ≥ c.expected.toNat then (c.reset, [c.buf.1.take c.expected.toNat])
    else (c, [])

/-- While a payload comes in, the next byte of it has its place in the buffer. -/
def Console.InBounds (c : Console) : Prop :=
  c.state = .payload → c.received < c.expected.toNat ∧ c.expected.toNat ≤ maxFrameLen

theorem Console.isReset_iff {c : Console} :
    c.IsReset ↔ c.state = .lenHi ∧ c.expected = 0 ∧ c.received = 0 := by
  obtain ⟨state, expected, received, buf⟩ := c
  simp only [IsReset, reset, mk.injEq, and_true]
  constructor
  · rintro ⟨h₁, h₂, h₃⟩
    exact ⟨h₁.symm, h₂.symm, h₃.symm⟩
  · rintro ⟨h₁, h₂, h₃⟩
    exact ⟨h₁.symm, h₂.symm, h₃.symm⟩

theorem Console.isReset_reset (c : Console) : c.reset.IsReset := rfl

theorem Console.IsReset.inBounds {c : Console} (h : c.IsReset) : c.InBounds := by
  intro hpayload
  rw [(isReset_iff.mp h).1] at hpayload
  cases hpayload

theorem absorb_inBounds {c : Console} (h : c.InBounds) (b : UInt8) : (absorb c b).1.InBounds := by
  unfold absorb
  split
  · intro hpayload
    cases hpayload
  · dsimp only
    split
    · exact (Console.isReset_reset _).inBounds
    · rename_i hlen
      rw [not_or] at hlen
      intro _
      have hne : c.expected ||| b.toUInt16 ≠ 0 := hlen.1
      have hpos : (c.expected ||| b.toUInt16).toNat ≠ 0 := by
        intro hzero
        exact hne (UInt16.toNat_inj.mp hzero)
      show 0 < (c.expected ||| b.toUInt16).toNat ∧ (c.expected ||| b.toUInt16).toNat ≤ maxFrameLen
      omega
  · rename_i hstate
    obtain ⟨-, hmax⟩ := h hstate
    dsimp only
    split
    · exact (Console.isReset_reset _).inBounds
    · rename_i hmore
      intro _
      exact ⟨not_le.mp hmore, hmax⟩

section
variable {σ : Type} {fw : FwVersion} (transport : Option Transport) (save : SaveFn σ)

theorem serve_spec (hfw : fw.length < 256) {io : Io σ} (hcfg : Terminated io.cfg) (req : Bytes) :
    ∃ io', serve fw transport save io req = .ok io' ∧ io'.requests = io.requests ++ [req] ∧
      Terminated io'.cfg := by
  obtain ⟨resp, cfg', s', b, ps, hrun, -, hserved⟩ :
      Serves fw req io.cfg transport save io.caller := serves transport save io.caller hfw hcfg
  have hcfg' : Terminated cfg' := hserved.terminated hcfg
  rw [serve, hrun]
  refine ⟨_, rfl, ?_, ?_⟩
  · show (sendResponse _ _).requests = _
    unfold sendResponse
    split <;> rfl
  · show Terminated (sendResponse _ _).cfg
    unfold sendResponse
    split <;> exact hcfg'

/-- `tick` does with a byte what `absorb` says, as long as the requests are answered. -/
theorem tickByte_spec (hfw : fw.length < 256) {c : Console} {io : Io σ} (hc : c.InBounds)
    (hcfg : Terminated io.cfg) (b : UInt8) :
    ∃ io', tickByte fw transport save (c, io) b = .ok ((absorb c b).1, io') ∧
      io'.requests = io.requests ++ (absorb c b).2 ∧ Terminated io'.cfg := by
  unfold tickByte absorb
  dsimp only
  cases hstate : c.state with
  | lenHi => exact ⟨io, rfl, (List.append_nil _).symm, hcfg⟩
  | lenLo =>
    dsimp only
    split
    · exact ⟨io, rfl, (List.append_nil _).symm, hcfg⟩
    · exact ⟨io, rfl, (List.append_nil _).symm, hcfg⟩
  | payload =>
    obtain ⟨hlt, hmax⟩ := hc hstate
    have hroom : c.received < maxFrameLen := by omega
    have hput : (c.put b).expected.toNat ≤ maxFrameLen := hmax
    simp only [store, if_pos hroom, bind, Except.bind]
    split
    · obtain ⟨io', hserve, hrequests, hcfg'⟩ := serve_spec transport save hfw hcfg
        ((c.put b).buf.1.take (c.put b).expected.toNat)
      refine ⟨io', ?_, hrequests, hcfg'⟩
      simp only [request, if_pos hput, hserve]
      rfl
    · exact ⟨io, rfl, (List.append_nil _).symm, hcfg⟩

theorem tick_spec (hfw : fw.length < 256) {c : Console} {io : Io σ} (hc : c.InBounds)
    (hcfg : Terminated io.cfg) (bytes : Bytes) :
    ∃ io', bytes.foldlM (tickByte fw transport save) (c, io) =
        .ok ((Mealy.run absorb c bytes).1, io') ∧
      io'.requests = io.requests ++ (Mealy.run absorb c bytes).2 := by
  induction bytes generalizing c io with
  | nil => exact ⟨io, rfl, (List.append_nil _).symm⟩
  | cons b bytes ih =>
    obtain ⟨io₁, hbyte, hrequests, hcfg₁⟩ := tickByte_spec transport save hfw hc hcfg b
    obtain ⟨io₂, hrest, hrequests₂⟩ := ih (absorb_inBounds hc b) hcfg₁
    refine ⟨io₂, ?_, ?_⟩
    · rw [List.foldlM_cons, hbyte]
      exact hrest
    · rw [hrequests₂, hrequests, List.append_assoc]
      rfl

/-- How the stream is cut into calls, and what else the calls are given, does not matter. -/
theorem ticks_eq (hfw : fw.length < 256) {c : Console} (hc : c.InBounds)
    {calls : List (TickCall σ)} (hcfg : ∀ call ∈ calls, Terminated call.cfg) :
    ticks fw c calls = .ok (Mealy.run absorb c (calls.map TickCall.available).flatten) := by
  rw [← Mealy.runAll_eq]
  induction calls generalizing c with
  | nil => rfl
  | cons call calls ih =>
    have hterminated : Terminated (⟨call.cfg, call.caller, [], []⟩ : Io σ).cfg :=
      hcfg call (List.mem_cons_self ..)
    obtain ⟨io, htick, hrequests⟩ :=
      tick_spec call.transport call.save hfw hc hterminated call.available
    rw [List.nil_append] at hrequests
    have hrest := ih (Mealy.run_inv (I := Console.InBounds) (fun c b h => absorb_inBounds h b) hc
      call.available) fun call' h => hcfg call' (List.mem_cons_of_mem call h)
    rw [ticks, tick, htick]
    show (ticks fw _ calls >>= fun r => pure (r.1, io.requests ++ r.2)) = _
    rw [hrest, hrequests]
    rfl

/-- Whether or not the requests are answered, the static variables go where `absorb` takes them. -/
theorem console_of_tickByte {p p' : Console × Io σ} {b : UInt8}
    (h : tickByte fw transport save p b = .ok p') : p'.1 = (absorb p.1 b).1 := by
  obtain ⟨c, io⟩ := p
  unfold tickByte at h
  unfold absorb
  dsimp only at h ⊢
  cases hstate : c.state with
  | lenHi =>
    rw [hstate] at h
    cases h
    rfl
  | lenLo =>
    rw [hstate] at h
    dsimp only at h ⊢
    split at h
    · rename_i hbad
      cases h
      rw [if_pos hbad]
    · rename_i hgood
      cases h
      rw [if_neg hgood]
  | payload =>
    rw [hstate] at h
    dsimp only at h ⊢
    obtain ⟨c₁, hstore, h⟩ := bind_eq_ok h
    unfold store at hstore
    split at hstore
    swap
    · cases hstore
    cases hstore
    split at h
    · rename_i hfull
      obtain ⟨req, -, h⟩ := bind_eq_ok h
      obtain ⟨io', -, h⟩ := bind_eq_ok h
      cases h
      rw [if_pos hfull]
    · rename_i hmore
      cases h
      rw [if_neg hmore]

theorem inBounds_of_tick {c c' : Console} {io' : Io σ} {call : TickCall σ} (hc : c.InBounds)
    (h : tick fw c call = .ok (c', io')) : c'.InBounds := by
  have hfold : ∀ (bytes : Bytes) (p p' : Console × Io σ), p.1.InBounds →
      bytes.foldlM (tickByte fw call.transport call.save) p = .ok p' → p'.1.InBounds := by
    intro bytes
    induction bytes with
    | nil =>
      intro p p' hp h
      cases h
      exact hp
    | cons b bytes ih =>
      intro p p' hp h
      obtain ⟨p₁, hbyte, h⟩ := bind_eq_ok h
      have hp₁ : p₁.1.InBounds := by
        rw [console_of_tickByte _ _ hbyte]
        exact absorb_inBounds hp b
      exact ih p₁ p' hp₁ h
  exact hfold call.available _ (c', io') hc h

theorem inBounds_of_ticks {c c' : Console} {calls : List (TickCall σ)} {requests : List Bytes}
    (hc : c.InBounds) (h : ticks fw c calls = .ok (c', requests)) : c'.InBounds := by
  induction calls generalizing c requests with
  | nil =>
    cases h
    exact hc
  | cons call calls ih =>
    obtain ⟨⟨c₁, io⟩, htick, h⟩ := bind_eq_ok h
    obtain ⟨⟨c₂, requests'⟩, hrest, h⟩ := bind_eq_ok h
    cases h
    exact ih (inBounds_of_tick hc htick) hrest

end

/-! ### One segment -/

theorem toNat_expected (hi lo : UInt8) :
    (hi.toUInt16 <<< 8 ||| lo.toUInt16).toNat = hi.toNat * 256 + lo.toNat := by
  rw [Endian.toNat_shift16]
  simp [Endian.ofBe]

theorem absorb_lenHi {c : Console} (h : c.state = .lenHi) (b : UInt8) :
    absorb c b = ({ c with expected := b.toUInt16 <<< 8, state := .lenLo }, []) := by
  simp only [absorb, h]

theorem run_badHeader {c : Console} (h : c.IsReset) {hi lo : UInt8}
    (hv : (Segment.badHeader hi lo).Valid) :
    (Mealy.run absorb c [hi, lo]).1.IsReset ∧ (Mealy.run absorb c [hi, lo]).2 = [] := by
  obtain ⟨hstate, -, -⟩ := Console.isReset_iff.mp h
  have hbad : hi.toUInt16 <<< 8 ||| lo.toUInt16 = 0 ∨
      (hi.toUInt16 <<< 8 ||| lo.toUInt16).toNat > maxFrameLen := by
    rw [← UInt16.toNat_inj, toNat_expected]
    exact hv
  have hlo : absorb { c with expected := hi.toUInt16 <<< 8, state := .lenLo } lo =
      ({ c with expected := hi.toUInt16 <<< 8 ||| lo.toUInt16, state := .lenLo }.reset, []) :=
    if_pos hbad
  rw [Mealy.run_cons (absorb_lenHi hstate hi) (Mealy.run_cons hlo rfl)]
  exact ⟨Console.isReset_reset _, rfl⟩

/-- The next byte of a payload goes behind the part that the buffer holds. -/
theorem take_set {buf : FrameBuf} {got : Bytes} (b : UInt8) (hgot : buf.1.take got.length = got)
    (hroom : got.length < maxFrameLen) :
    (buf.1.set got.length b).take (got.length + 1) = got ++ [b] := by
  have hlen : got.length < (buf.1.set got.length b).length := by
    rw [List.length_set, buf.2]
    exact hroom
  rw [List.take_succ_eq_append_getElem hlen, List.getElem_set_self, List.take_set_of_le le_rfl,
    hgot]

theorem run_payload {c : Console} {got rest : Bytes} (hstate : c.state = .payload)
    (hreceived : c.received = got.length) (hgot : c.buf.1.take got.length = got)
    (hexpected : c.expected.toNat = got.length + rest.length)
    (hmax : c.expected.toNat ≤ maxFrameLen) (hrest : rest ≠ []) :
    (Mealy.run absorb c rest).1.IsReset ∧ (Mealy.run absorb c rest).2 = [got ++ rest] := by
  induction rest generalizing c got with
  | nil => exact absurd rfl hrest
  | cons b rest ih =>
    rw [List.length_cons] at hexpected
    have hset := take_set b hgot (by omega)
    rw [← hreceived] at hset
    by_cases hlast : rest = []
    · subst hlast
      have hfull : c.received + 1 ≥ c.expected.toNat := by
        rw [hexpected, hreceived]
        exact le_rfl
      have htake : (c.buf.1.set c.received b).take c.expected.toNat = got ++ [b] := by
        rw [hexpected, ← hreceived]
        exact hset
      have hb : absorb c b = ((c.put b).reset, [got ++ [b]]) := by
        simp only [absorb, Console.put, hstate, if_pos hfull, htake]
      rw [Mealy.run_cons hb rfl]
      exact ⟨Console.isReset_reset _, rfl⟩
    · have hpos := List.length_pos_iff.mpr hlast
      have hmore : ¬c.received + 1 ≥ c.expected.toNat := by omega
      have hb : absorb c b = (c.put b, []) := by
        simp only [absorb, Console.put, hstate, if_neg hmore]
      have hgot' : (got ++ [b]).length = got.length + 1 := List.length_append
      obtain ⟨hreset, hout⟩ := @ih (c.put b) (got ++ [b]) hstate
        (by show c.received + 1 = _; rw [hgot', hreceived])
        (by rw [hgot', ← hreceived]; exact hset)
        (by rw [hgot', Nat.add_assoc, Nat.add_comm 1]; exact hexpected) hmax hlast
      rw [Mealy.run, hb]
      refine ⟨hreset, ?_⟩
      rw [List.nil_append, hout, List.append_assoc]
      rfl

/-- After a header that is accepted the payload is awaited. -/
theorem run_header {c : Console} (h : c.state = .lenHi) {hi lo : UInt8} {n : UInt16}
    (hn : hi.toUInt16 <<< 8 ||| lo.toUInt16 = n) (hpos : n ≠ 0) (hmax : n.toNat ≤ maxFrameLen)
    (rest : Bytes) : Mealy.run absorb c (hi :: lo :: rest) =
      Mealy.run absorb { c with expected := n, received := 0, state := .payload } rest := by
  subst hn
  have hgood : ¬(hi.toUInt16 <<< 8 ||| lo.toUInt16 = 0 ∨
      (hi.toUInt16 <<< 8 ||| lo.toUInt16).toNat > maxFrameLen) := by
    rw [not_or]
    exact ⟨hpos, not_lt.mpr hmax⟩
  have hlo : absorb { c with expected := hi.toUInt16 <<< 8, state := .lenLo } lo =
      ({ c with
        expected := hi.toUInt16 <<< 8 ||| lo.toUInt16, received := 0, state := .payload }, []) :=
    if_neg hgood
  rw [Mealy.run, absorb_lenHi h, Mealy.run, hlo]
  rfl

theorem run_frame {c : Console} (h : c.IsReset) {payload : Bytes}
    (hv : (Segment.frame payload).Valid) :
    (Mealy.run absorb c (Segment.frame payload).bytes).1.IsReset ∧
      (Mealy.run absorb c (Segment.frame payload).bytes).2 = [payload] := by
  obtain ⟨hstate, -, -⟩ := Console.isReset_iff.mp h
  obtain ⟨hmin, hmax⟩ : 1 ≤ payload.length ∧ payload.length ≤ 1024 := hv
  obtain ⟨n, hn⟩ : ∃ n, (UInt8.ofNat (payload.length / 256)).toUInt16 <<< 8 |||
      (UInt8.ofNat (payload.length % 256)).toUInt16 = n := ⟨_, rfl⟩
  have hlen : n.toNat = payload.length := by
    rw [← hn, toNat_expected, UInt8.toNat_ofNat', UInt8.toNat_ofNat']
    omega
  have hpos : n ≠ 0 := by
    rintro rfl
    rw [← hlen] at hmin
    exact absurd hmin (by decide)
  have hcap : n.toNat ≤ maxFrameLen := hlen.trans_le hmax
  have hexpected : n.toNat = ([] : Bytes).length + payload.length := by
    rw [List.length_nil, Nat.zero_add]
    exact hlen
  rw [Segment.bytes, run_header hstate hn hpos hcap]
  exact @run_payload { c with expected := n, received := 0, state := .payload } [] payload rfl rfl
    rfl hexpected hcap (List.length_pos_iff.mp hmin)

theorem run_segment {s : Segment} (hv : s.Valid) {c : Console} (h : c.IsReset) :
    (Mealy.run absorb c s.bytes).1.IsReset ∧ (Mealy.run absorb c s.bytes).2 = s.requests := by
  cases s with
  | frame payload => exact run_frame h hv
  | badHeader hi lo => exact run_badHeader h hv

/-- A stream of frames with bad headers between them, cut in any way into calls of `tick`, hands
over exactly the payloads of the frames, in order, and leaves the adapter reset. On any stream,
wherever the last call ends, the place for the next byte of a payload is below the expected length,
which is at most that of the buffer. -/
theorem deframing_exact {σ : Type} (fw : FwVersion) (c : Console) (hc : c.IsReset)
    (calls : List (TickCall σ)) :
    (fw.length < 256 → (∀ call ∈ calls, Terminated call.cfg) → ∀ segments : List Segment,
      (∀ s ∈ segments, s.Valid) →
      (calls.map TickCall.available).flatten = segments.flatMap Segment.bytes →
      ∃ c', ticks fw c calls = .ok (c', segments.flatMap Segment.requests) ∧ c'.IsReset) ∧
    ∀ c' requests, ticks fw c calls = .ok (c', requests) → c'.state = .payload →
      c'.received < c'.expected.toNat ∧ c'.expected.toNat ≤ 1024 := by
  constructor
  · intro hfw hcfg segments hvalid hstream
    rw [ticks_eq hfw hc.inBounds hcfg, hstream]
    have hsegment : ∀ s ∈ segments, ∀ c : Console, c.IsReset →
        (Mealy.run absorb c s.bytes).1.IsReset ∧ (Mealy.run absorb c s.bytes).2 = s.requests := by
      intro s hs c hc
      exact run_segment (hvalid s hs) hc
    obtain ⟨hreset, hout⟩ := Mealy.run_flatMap hsegment hc
    exact ⟨_, congrArg Except.ok (Prod.ext rfl hout), hreset⟩
  · intro c' requests h
    exact inBounds_of_ticks hc.inBounds h

/-- A header of length zero, and a frame of two bytes that comes in three calls. -/
theorem deframing_exact_cut : ∃ (calls : List (TickCall Unit)) (c' : Console),
    calls.map TickCall.available = [[0, 0, 0], [2, 0x81], [0xc0]] ∧
    ticks [] ⟨.lenHi, 0, 0, ⟨List.replicate 1024 0, List.length_replicate⟩⟩ calls =
      .ok (c', [[0x81, 0xc0]]) ∧ c'.IsReset := by
  let call : Bytes → TickCall Unit := fun available => ⟨{}, none, none, (), available⟩
  have hdefault : Terminated {} := show (0 : UInt8) ∈ DisplayName.unset.1 by decide
  obtain ⟨hframes, -⟩ := deframing_exact []
    ⟨.lenHi, 0, 0, ⟨List.replicate 1024 0, List.length_replicate⟩⟩ rfl
    ([[0, 0, 0], [2, 0x81], [0xc0]].map call)
  have hcfg : ∀ t ∈ [[0, 0, 0], [2, 0x81], [0xc0]].map call, Terminated t.cfg := by
    intro t ht
    obtain ⟨available, -, rfl⟩ := List.mem_map.mp ht
    exact hdefault
  have hvalid : ∀ s ∈ [Segment.badHeader 0 0, .frame [0x81, 0xc0]], s.Valid := by
    intro s hs
    rcases List.mem_pair.mp hs with rfl | rfl
    · exact .inl rfl
    · exact ⟨by decide, by decide⟩
  obtain ⟨c', hrun, hreset⟩ := hframes (by decide) hcfg _ hvalid rfl
  exact ⟨_, c', rfl, hrun, hreset⟩

end SerialConsole
end Reticulum
