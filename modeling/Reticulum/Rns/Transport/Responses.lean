import Reticulum.Rns.Transport.Entries

/-!
# Path responses

A path request is answered by the node itself for one of its destinations, from the path table for
another, or passed on. An answer from the table is the cached announce with another context byte.
-/

namespace Reticulum

namespace Packet

def withContext (p : Packet) (context : UInt8) : Packet :=
  ofFields p.flags p.hops p.transportId p.destinationHash context p.data p.ifac_clear
    p.transportId_length p.destinationHash_length

/-- The fixed offset at which `emit_path_response` patches is the context byte of a HEADER_2. -/
theorem set_h2CtxOffset {p : Packet} (h2 : p.headerType = .header2) (context : UInt8) :
    p.wireBytes.set h2CtxOffset context = (p.withContext context).wireBytes := by
  have htid : p.transportId.length = 16 := p.transportId_length.trans (if_pos h2)
  have hdest : p.destinationHash.length = 16 := p.destinationHash_length
  have hoff : h2CtxOffset = (p.flags :: p.hops :: (p.transportId ++ p.destinationHash)).length := by
    simp [h2CtxOffset, htid, hdest]
  have hsplit : ∀ c rest, p.flags :: p.hops :: (p.transportId ++ (p.destinationHash ++ c :: rest)) =
      (p.flags :: p.hops :: (p.transportId ++ p.destinationHash)) ++ c :: rest := by simp
  rw [p.wireBytes_eq, (p.withContext context).wireBytes_eq]
  simp only [withContext, ofFields, hsplit]
  rw [hoff, List.set_append_right _ _ (Nat.le_refl _), Nat.sub_self, List.set_cons_zero]

end Packet

section
variable [CryptoLib]

/-- The context byte is not signed; it only tells a path response. -/
theorem validateAnnounce_withContext {p : Packet} {va : ValidatedAnnounce} (context : UInt8)
    (h : Identity.validateAnnounce p = some va) :
    Identity.validateAnnounce (p.withContext context) =
      some { va with isPathResponse := context == contextPathResponse } := by
  have htype : (p.withContext context).packetType = p.packetType := rfl
  have hdt : (p.withContext context).destinationType = p.destinationType := rfl
  have hflag : (p.withContext context).contextFlag = p.contextFlag := rfl
  have hdest : (p.withContext context).destinationHash = p.destinationHash := rfl
  have hdata : (p.withContext context).data = p.data := rfl
  have hctx : (p.withContext context).context = context := rfl
  unfold Identity.validateAnnounce at h ⊢
  rw [htype, hdt, hflag, hdest, hdata, hctx]
  split at h
  · cases h
  rename_i h₁
  split at h
  · cases h
  rename_i h₂
  rw [if_neg h₁, if_neg h₂]
  cases hparse : parseAnnounceBody p.data p.contextFlag with
  | error e => rw [hparse] at h; cases h
  | ok body =>
    rw [hparse] at h
    simp only at h ⊢
    split at h
    · cases h
    rename_i h₃
    split at h
    · cases h
    rename_i h₄
    cases h
    rw [if_neg h₃, if_neg h₄]

namespace Transport

/-- The events with which `handle_path_request` may answer `p`, received on `i`. -/
inductive Answers (t : Transport) (i : IfaceId) (p : Packet) : List Event → Prop
  | silent : Answers t i p []
  | own (w : Bytes) (h : t.isLocalDestination (p.data.slice 0 16) = true) :
    Answers t i p [.transmit .pathResponse i w]
  | fromTable (e : PathEntry) (h : t.paths.get (p.data.slice 0 16) = some e)
    (henabled : t.transportEnabled = true) : Answers t i p
    [.transmit .pathResponse i (e.announceWire.set h2CtxOffset contextPathResponse)]
  | passOn (h : t.paths.get (p.data.slice 0 16) = none) : Answers t i p
    ((t.interfaces.filter (· ≠ i)).map fun j => .transmit .pathRequestForward j p.wireBytes)

theorem emitAnnounceForLocal_response {t t' : Transport} {d a : Bytes} {b : Bool} {i : IfaceId}
    (h : t.emitAnnounceForLocal d a true (some i) = .ok (b, t')) :
    ∃ n o, (o = [] ∨ ∃ w, o = [Event.transmit .pathResponse i w]) ∧
      t' = { t with seedCalls := n, out := t.out ++ o } := by
  cases emitsLocal_of_ok h with
  | silent => exact ⟨t.seedCalls, [], .inl rfl, by simp⟩
  | sent => exact ⟨_, _, .inr ⟨_, rfl⟩, rfl⟩

theorem handlePathRequest_answers {t t' : Transport} {i : IfaceId} {p : Packet}
    (h : t.handlePathRequest i p = .ok t') : ∃ l n s o, Answers t i p o ∧
      t' = { t with prTags := l, seedCalls := n, stats := s, out := t.out ++ o } := by
  have hsilent : ∀ {l : PacketHashList} {s : Counter → Nat}, ∃ l' n s' o, Answers t i p o ∧
      { t with prTags := l, stats := s } =
        { t with prTags := l', seedCalls := n, stats := s', out := t.out ++ o } :=
    fun {l s} => ⟨l, t.seedCalls, s, [], .silent, by simp⟩
  cases requested_of_handlePathRequest h with
  | short => exact hsilent (l := t.prTags) (s := t.stats)
  | tagless => exact hsilent (l := t.prTags)
  | repeated => exact hsilent (l := t.prTags)
  | fresh _ _ _ h =>
    cases h with
    | noSeed => exact hsilent (l := (t.tagged p).prTags)
    | own hlocal he =>
      obtain ⟨n, o, ho, rfl⟩ := emitAnnounceForLocal_response he
      refine ⟨_, n, _, o, ?_, rfl⟩
      rcases ho with rfl | ⟨w, rfl⟩
      · exact .silent
      · exact .own w hlocal
    | @fromTable e hlocal hget henabled =>
      unfold emitPathResponse
      split
      · exact hsilent (l := (t.tagged p).prTags)
      · exact ⟨_, _, _, _, .fromTable e hget henabled, rfl⟩
    | passOn hlocal hget =>
      simp only [forwardPathRequest]
      split
      · obtain ⟨s, heq⟩ := adds_transmitAll (t.tagged p) .pathRequestForward
          (t.interfaces.filter (· ≠ i)) p.wireBytes
        exact ⟨_, _, _, _, .passOn hget, congrArg (count · .pathRequestsForwarded) heq⟩
      · exact hsilent (l := (t.tagged p).prTags)
    | disabled => exact hsilent (l := (t.tagged p).prTags)

omit [CryptoLib] in
theorem Answers.congr {t t' : Transport} {i : IfaceId} {q : Packet} {o : List Event}
    (h : Answers t' i q o) (hp : t'.paths = t.paths)
    (he : t'.transportEnabled = t.transportEnabled)
    (hl : t'.localDestinations = t.localDestinations) (hi : t'.interfaces = t.interfaces) :
    Answers t i q o := by
  cases h with
  | silent => exact .silent
  | own w h => exact .own w (by simpa [isLocalDestination, hl] using h)
  | fromTable e h henabled => exact .fromTable e (hp ▸ h) (he ▸ henabled)
  | passOn h =>
    rw [hi]
    exact .passOn (hp ▸ h)

theorem out_of_pathRequest {t t' : Transport} {i : IfaceId} {wire : Bytes} {now : Nat} {q : Packet}
    (h : t.step (.inbound i wire now) = .ok t') (hw : arriving wire = some q)
    (hs : t.hasSeen q = false) (hk : q.handler = .pathRequest) : Answers t i q t'.out := by
  rw [step_inbound_eq hw hs, dispatch_eq, hk] at h
  obtain ⟨l, n, s, o, hans, rfl⟩ := handlePathRequest_answers h
  exact hans.congr rfl rfl rfl rfl

/-- A path response that `inbound` sends for a destination of another node is the cached announce,
patched in one byte, and goes back where the request came from. -/
theorem pathResponse_of_inbound {t t' : Transport} {i o : IfaceId} {wire w : Bytes} {now : Nat}
    {p : Packet} (h : t.step (.inbound i wire now) = .ok t') (hw : arriving wire = some p)
    (hl : t.isLocalDestination (p.data.slice 0 16) = false)
    (ho : .transmit .pathResponse o w ∈ t'.out) :
    o = i ∧ p.handler = .pathRequest ∧ ∃ e, t.paths.get (p.data.slice 0 16) = some e ∧
      w = e.announceWire.set h2CtxOffset contextPathResponse := by
  cases step_did h with
  | apart ha _ => cases ha
  | dropped _ => cases ho
  | took hw' hs hh =>
    cases hw.symm.trans hw'
    rw [step_inbound_eq hw hs, dispatch_eq] at h
    cases hh with
    | ignored _ => cases ho
    | announce hk ha _ =>
      rw [hk] at h
      obtain ⟨s, -, heq⟩ := handleAnnounce_takeIn (t := seen { t with out := [] } p) i now ha
      cases heq.symm.trans h
      rcases List.mem_append.mp ho with ho | ho
      · cases ho
      · rcases of_mem_announceEvents ho with ⟨u, hev, -, -⟩ | hev
        · cases hev
        · cases hev
    | pathRequest hk _ =>
      rw [hk] at h
      obtain ⟨l, n, s, o', hans, heq⟩ := handlePathRequest_answers h
      rw [heq] at ho
      have ho : .transmit .pathResponse o w ∈ o' := by simpa [seen, count] using ho
      cases hans with
      | silent => cases ho
      | own w' hl' => cases hl.symm.trans hl'
      | fromTable e he =>
        cases List.mem_singleton.mp ho
        exact ⟨rfl, hk, e, he, rfl⟩
      | passOn _ =>
        obtain ⟨_, -, hev⟩ := List.mem_map.mp ho
        cases hev
    | data _ _ => simp at ho
    | linkRequest _ _ => simp at ho
    | proof _ _ => simp at ho
    | linkProof _ _ => simp at ho
    | linkData _ _ => simp at ho

/-- Every path entry is sound; and every path response sent from the table is a valid announce for
the requested destination that differs from the cached one in the context byte alone. -/
theorem pathTable_sound {t : Transport} (ht : Reachable t) :
    (∀ d e, t.paths.get d = some e → e.Sound t d) ∧
    ∀ i wire now t' p o w, t.step (.inbound i wire now) = .ok t' → arriving wire = some p →
      t.isLocalDestination (p.data.slice 0 16) = false → .transmit .pathResponse o w ∈ t'.out →
      ∃ e c va, t.paths.get (p.data.slice 0 16) = some e ∧
        Packet.fromWireBytes e.announceWire = .ok c ∧
        Packet.fromWireBytes w = .ok (c.withContext contextPathResponse) ∧
        w = e.announceWire.set 34 contextPathResponse ∧
        Identity.validateAnnounce (c.withContext contextPathResponse) = some va ∧
        va.destinationHash = p.data.slice 0 16 ∧ va.isPathResponse = true ∧
        t.publicKeyFor (p.data.slice 0 16) = some va.publicKey := by
  refine ⟨ht.entriesSound, ?_⟩
  intro i wire now t' p o w h hw hl ho
  obtain ⟨-, -, e, he, rfl⟩ := pathResponse_of_inbound h hw hl ho
  obtain ⟨c, va, hc, hv, hk⟩ := (ht.entriesSound _ e he).cached
  obtain ⟨body, hb⟩ := validateAnnounce_eq_some hv
  have hwire : c.wireBytes = e.announceWire := Packet.wireBytes_of_fromWireBytes hc.parses
  refine ⟨e, c, _, he, hc.parses, ?_, rfl, validateAnnounce_withContext _ hv, ?_, rfl, hk⟩
  · rw [← hwire, Packet.set_h2CtxOffset hc.headerType]
    exact Packet.fromWireBytes_wireBytes _
  · exact hb.destinationHash.trans hc.destinationHash

end Transport
end

namespace Transport
open Vectors
attribute [local instance] lib

theorem arriving_aliceQuery :
    (arriving aliceQuery).map (fun p => p.data.slice 0 16) = some aliceDest := by
  decide +kernel

set_option maxRecDepth 100000 in
theorem heardAlice_query : (relay.steps heardAlice).toOption.map (fun t =>
    ((t.paths.get aliceDest).isSome, t.isLocalDestination aliceDest,
      (t.step (.inbound 0 aliceQuery 2000)).toOption.map Transport.out)) =
    some (true, false, some [.transmit .pathResponse 0
      (bobAnnouncePacket.wireBytes.set h2CtxOffset contextPathResponse)]) := by
  decide +kernel

/-- Bob answers a request for Alice with a valid announce. -/
theorem pathTable_sound_alice : ∃ t e va w, ∃ c : Packet, Reachable t ∧
    t.paths.get aliceDest = some e ∧ e.Sound t aliceDest ∧
    Packet.fromWireBytes w = .ok (c.withContext contextPathResponse) ∧
    Identity.validateAnnounce (c.withContext contextPathResponse) = some va ∧
    va.destinationHash = aliceDest := by
  obtain ⟨t, -, ht, hf⟩ :=
    reachable_of_steps (reachable_new bob true fun _ => cfg) heardAlice_query
  obtain ⟨hsome, hf⟩ := Prod.mk.inj hf
  obtain ⟨hl, hout⟩ := Prod.mk.inj hf
  obtain ⟨t', hstep, hout⟩ := Option.map_eq_some_iff.mp hout
  obtain ⟨p, hw, hd⟩ := Option.map_eq_some_iff.mp arriving_aliceQuery
  obtain ⟨hsound, hresponses⟩ := pathTable_sound ht
  obtain ⟨e, c, va, he, -, hparse, -, hv, hdest, -⟩ := hresponses 0 aliceQuery 2000 t' p 0 _
    (toOption_eq_some hstep) hw (hd.symm ▸ hl) (hout ▸ List.mem_singleton_self _)
  rw [hd] at he hdest
  exact ⟨t, e, va, _, c, ht, he, hsound aliceDest e he, hparse, hv, hdest⟩

end Transport
end Reticulum
