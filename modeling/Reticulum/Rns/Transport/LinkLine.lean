import Reticulum.Rns.Transport.Delivery
import Reticulum.Rns.Transport.Links

/-!
# Links along a line

A link request goes up a line of paths; relays may clamp the MTU it signals, but the link id leaves
the signalling out, so all of them file the link under the id the destination computes. The LRPROOF
comes back down and validates every entry, and from then on the line carries the link both ways.
-/

namespace Reticulum

/-! ### Clamping -/

/-- What `maybe_clamp_lr_signalling` makes of the body of a request. -/
def clampSignalling (data : Bytes) (hwMtuBytes : Nat) : Bytes :=
  if data.length ≠ ecPubSize + linkMtuSize then data
  else if signallingAt data ecPubSize &&& 0x1FFFFF ≤ hwMtuBytes then data
  else
    let modeBits := data.byteAt ecPubSize &&& 0xE0
    let clamped := hwMtuBytes &&& 0x1FFFFF
    ((data.set ecPubSize (modeBits ||| UInt8.ofNat ((clamped >>> 16) &&& 0x1F))).set
      (ecPubSize + 1) (UInt8.ofNat ((clamped >>> 8) &&& 0xFF))).set
      (ecPubSize + 2) (UInt8.ofNat (clamped &&& 0xFF))

theorem length_clampSignalling (data : Bytes) (hwMtuBytes : Nat) :
    (clampSignalling data hwMtuBytes).length = data.length := by
  unfold clampSignalling
  split
  · rfl
  split
  · rfl
  · simp

theorem take_clampSignalling (data : Bytes) (hwMtuBytes : Nat) :
    (clampSignalling data hwMtuBytes).take ecPubSize = data.take ecPubSize := by
  unfold clampSignalling
  split
  · rfl
  split
  · rfl
  · simp [List.take_set_of_le, ecPubSize]

namespace Packet

def withData (p : Packet) (data : Bytes) : Packet :=
  ofFields p.flags p.hops p.transportId p.destinationHash p.context data p.ifac_clear
    p.transportId_length p.destinationHash_length

def clamped (p : Packet) (hwMtuBytes : Nat) : Packet :=
  p.withData (clampSignalling p.data hwMtuBytes)

end Packet

theorem Packet.clamped_of_length {p : Packet} (h : p.data.length ≠ ecPubSize + linkMtuSize)
    (hwMtuBytes : Nat) : p.clamped hwMtuBytes = p :=
  ext_fields rfl rfl rfl rfl rfl (if_pos h)

theorem byteAt_append (hdr data : Bytes) (i : Nat) :
    (hdr ++ data).byteAt (hdr.length + i) = data.byteAt i := by
  simp [Bytes.byteAt, List.getElem?_append_right]

theorem set_append (hdr data : Bytes) (i : Nat) (x : UInt8) :
    (hdr ++ data).set (hdr.length + i) x = hdr ++ data.set i x := by
  rw [List.set_append_right _ _ (by omega), Nat.add_sub_cancel_left]

theorem maybeClampLrSignalling_wireBytes (p : Packet) (hwMtuBytes : Nat) :
    maybeClampLrSignalling p.wireBytes hwMtuBytes = (p.clamped hwMtuBytes).wireBytes := by
  generalize hhdr : p.flags :: p.hops :: (p.transportId ++ (p.destinationHash ++ [p.context])) = hdr
  have hw : ∀ data, (p.withData data).wireBytes = hdr ++ data := by
    intro data
    subst hhdr
    simp [Packet.withData, Packet.ofFields]
  have hp : p.wireBytes = hdr ++ p.data := by
    rw [← hw, p.wireBytes_eq]
    rfl
  unfold maybeClampLrSignalling
  rw [Packet.fromWireBytes_wireBytes, Packet.clamped, hw, hp]
  simp only [clampSignalling]
  by_cases hlen : p.data.length = ecPubSize + linkMtuSize
  · have hoff : (hdr ++ p.data).length - linkMtuSize = hdr.length + ecPubSize := by
      rw [List.length_append, hlen]
      omega
    simp only [hlen, hoff, ne_eq, not_true_eq_false, ↓reduceIte, signallingAt, Nat.add_assoc,
      byteAt_append, set_append]
    exact (apply_ite (hdr ++ ·) _ _ _).symm
  · simp [hlen]

namespace Packet

/-- The packets ask for the same link: they differ at most in what a relay rewrites and in the
signalling. -/
structure SameRequest (p q : Packet) : Prop where
  low : q.flags &&& lowNibbleMask = p.flags &&& lowNibbleMask
  destinationHash : q.destinationHash = p.destinationHash
  context : q.context = p.context
  length : q.data.length = p.data.length
  keys : q.data.take ecPubSize = p.data.take ecPubSize

theorem SameRequest.trans {p q r : Packet} (h : p.SameRequest q) (h' : q.SameRequest r) :
    p.SameRequest r :=
  ⟨h'.low.trans h.low, h'.destinationHash.trans h.destinationHash, h'.context.trans h.context,
    h'.length.trans h.length, h'.keys.trans h.keys⟩

theorem SameRequest.of_hashablePart {p q : Packet} (h : q.hashablePart = p.hashablePart) :
    p.SameRequest q := by
  obtain ⟨hlow, hd, hc, hb⟩ := hashablePart_eq_iff.mp h
  exact ⟨hlow, hd, hc, congrArg List.length hb, congrArg (List.take ecPubSize) hb⟩

theorem sameRequest_clamped (p : Packet) (hwMtuBytes : Nat) :
    p.SameRequest (p.clamped hwMtuBytes) :=
  ⟨rfl, rfl, rfl, length_clampSignalling _ _, take_clampSignalling _ _⟩

/-- The packets differ at most in their hop counts. -/
structure SameButHops (p q : Packet) : Prop where
  flags : q.flags = p.flags
  transportId : q.transportId = p.transportId
  destinationHash : q.destinationHash = p.destinationHash
  context : q.context = p.context
  data : q.data = p.data

theorem sameButHops_refl (p : Packet) : p.SameButHops p := ⟨rfl, rfl, rfl, rfl, rfl⟩

theorem SameButHops.bumped {p q : Packet} (h : p.SameButHops q) : p.SameButHops q.bumped :=
  ⟨h.flags, h.transportId, h.destinationHash, h.context, h.data⟩

theorem SameButHops.hashablePart {p q : Packet} (h : p.SameButHops q) :
    q.hashablePart = p.hashablePart :=
  hashablePart_eq_iff.mpr ⟨by rw [h.flags], h.destinationHash, h.context, h.data⟩

/-- DATA on the link `id`, other than a LINKCLOSE. -/
structure OnLink (p : Packet) (id : Bytes) : Prop where
  packetType : p.packetType = .data
  destinationType : p.destinationType = .link
  destinationHash : p.destinationHash = id
  context : p.context ≠ contextLinkclose

theorem SameButHops.onLink {p q : Packet} {id : Bytes} (h : p.SameButHops q) (hp : p.OnLink id) :
    q.OnLink id where
  packetType := (congrArg packetTypeOf h.flags).trans hp.packetType
  destinationType := (congrArg destinationTypeOf h.flags).trans hp.destinationType
  destinationHash := h.destinationHash.trans hp.destinationHash
  context := h.context ▸ hp.context

/-- A body of a link request: two public keys, with or without signalling. -/
def RequestBody (data : Bytes) : Prop :=
  data.length = ecPubSize ∨ data.length = ecPubSize + linkMtuSize

end Packet

section
variable [CryptoLib]

theorem linkIdFromLrPacket_eq {p : Packet} (h : Packet.RequestBody p.data) :
    linkIdFromLrPacket p = (sha256 ((p.flags &&& lowNibbleMask) ::
      (p.destinationHash ++ p.context :: p.data.take ecPubSize))).slice 0 16 := by
  simp only [linkIdFromLrPacket, Packet.hashablePart_eq]
  rcases h with hlen | hlen
  · rw [if_neg (fun hc => by have := hc.1; omega), List.take_of_length_le hlen.le]
  · have htake : ((p.flags &&& lowNibbleMask) :: (p.destinationHash ++ p.context :: p.data)).length
        - 3 = ((p.flags &&& lowNibbleMask) :: (p.destinationHash ++ [p.context])).length +
          ecPubSize := by
      simp only [List.length_cons, List.length_append, List.length_nil, hlen, linkMtuSize]
      omega
    rw [if_pos (by simp [hlen, linkMtuSize, ecPubSize]), htake]
    have hsplit : (p.flags &&& lowNibbleMask) :: (p.destinationHash ++ p.context :: p.data) =
        ((p.flags &&& lowNibbleMask) :: (p.destinationHash ++ [p.context])) ++ p.data := by simp
    rw [hsplit, List.take_length_add_append]
    simp

theorem Packet.SameRequest.linkId {p q : Packet} (h : p.SameRequest q)
    (hb : Packet.RequestBody p.data) : linkIdFromLrPacket q = linkIdFromLrPacket p := by
  have hbq : Packet.RequestBody q.data := by rwa [Packet.RequestBody, h.length]
  rw [linkIdFromLrPacket_eq hb, linkIdFromLrPacket_eq hbq, h.low, h.destinationHash, h.context,
    h.keys]

theorem linkIdFromLrPacket_congr {p q : Packet} (h : p.hashablePart = q.hashablePart)
    (hb : p.data = q.data) : linkIdFromLrPacket p = linkIdFromLrPacket q := by
  unfold linkIdFromLrPacket
  rw [h, hb]

end

/-- The forms in which a request comes in at the relays of a line and at its end. -/
def requestCopies : List Relay → Packet → List Packet
  | [], p => [p]
  | n :: ns, p => p :: requestCopies ns (p.clamped (n.node.iface n.right).hwMtuBytes)

theorem Packet.SameRequest.of_mem_requestCopies {ns : List Relay} {p c : Packet}
    (h : c ∈ requestCopies ns p) : p.SameRequest c := by
  induction ns generalizing p with
  | nil =>
    rw [List.mem_singleton.mp h]
    exact .of_hashablePart rfl
  | cons n ns ih =>
    rcases List.mem_cons.mp h with rfl | h
    · exact .of_hashablePart rfl
    · exact (p.sameRequest_clamped _).trans (ih h)

namespace Transport
variable [CryptoLib] {t t' : Transport} {now : Nat} {id : Bytes} {e : LinkEntry}

theorem tick_get_link (h : t.step (.tick now) = .ok t') (he : t.linkTable.get id = some e)
    (hp : e.validated = false → now < e.proofTimeoutMs)
    (hv : e.validated = true → now < e.lastActivityMs + linkStaleThresholdMs) :
    t'.linkTable.get id = some e := by
  cases step_link h id with
  | keep hk => exact hk.trans he
  | lapse he' hl _ =>
    cases he.symm.trans he'
    cases hval : e.validated with
    | false =>
      have := hp hval
      simp only [lapsed, LinkTable.unproven, LinkTable.stale, hval, Bool.false_and, Bool.and_false,
        Bool.or_false, Bool.and_eq_true, decide_eq_true_eq] at hl
      omega
    | true =>
      have := hv hval
      rw [lapsed_validated hval, decide_eq_true_eq] at hl
      omega

end Transport

namespace Relay
variable [CryptoLib]
open Transport

structure Holds (n : Relay) (id : Bytes) (e : LinkEntry) : Prop where
  get : n.node.linkTable.get id = some e
  linkId : e.linkId = id
  rcvdIf : e.rcvdIf = some n.left
  nhIf : e.nhIf = some n.right

omit [CryptoLib] in
theorem Holds.opposite_left {n : Relay} {id : Bytes} {e : LinkEntry} (h : n.Holds id e) :
    oppositeIf e n.left = some n.right := by
  rw [oppositeIf, if_pos h.rcvdIf.symm, h.nhIf]

omit [CryptoLib] in
theorem Holds.opposite_right {n : Relay} {id : Bytes} {e : LinkEntry} (h : n.Holds id e) :
    oppositeIf e n.right = some n.left := by
  rw [oppositeIf, h.rcvdIf, if_neg (fun heq => n.left_ne_right (Option.some.inj heq).symm),
    if_pos h.nhIf.symm]

/-- The relay has the link `id` established. -/
def Carries (n : Relay) (id : Bytes) : Prop := ∃ e, n.Holds id e ∧ e.validated = true

/-- The relay has just had a packet of the established link `id`. -/
def Up (n : Relay) (id : Bytes) : Prop :=
  ∃ e, n.Holds id e ∧ e.validated = true ∧ e.lastActivityMs = n.now

theorem Waits.holds {life : Nat} {n n' : Relay} {id : Bytes} {e : LinkEntry} (h : n.Waits life n')
    (he : n.Holds id e) (hp : e.validated = false → n.now + life ≤ e.proofTimeoutMs)
    (hv : e.validated = true → n.now + life ≤ e.lastActivityMs + linkStaleThresholdMs) :
    n'.Holds id e where
  get := h.keeps he.get fun _ _ _ hi ht hτ => tick_get_link ht hi
    (fun hval => hτ.trans_le (hp hval)) fun hval => hτ.trans_le (hv hval)
  linkId := he.linkId
  rcvdIf := he.rcvdIf.trans (congrArg some h.left.symm)
  nhIf := he.nhIf.trans (congrArg some h.right.symm)

theorem Waits.carries {n n' : Relay} {id : Bytes} (h : n.Waits linkStaleThresholdMs n')
    (hn : n.Up id) : n'.Carries id := by
  obtain ⟨e, he, hv, hnow⟩ := hn
  refine ⟨e, h.holds he (fun hval => ?_) fun _ => (congrArg (· + _) hnow).ge, hv⟩
  rw [hv] at hval
  cases hval

/-- A request on a relay that has a path for it goes on, clamped, and is filed under its link id. -/
theorem request_right {n : Relay} {d : Bytes} {ns : List Relay} {p : Packet}
    (hlead : n.LeadsTo d (headId ns)) (hd : p.destinationHash = d)
    (hp : AddressedTo (some n.id) p) (hk : p.handler = .linkRequest)
    (hs : n.node.hasSeen p = false) :
    ∃ n', ∃ q : Packet, n.Right p.wireBytes n' q.wireBytes ∧ n.Carried p n' ∧
      (∀ x, n'.node.publicKeyFor x = n.node.publicKeyFor x) ∧
      (∃ e, n'.Holds (linkIdFromLrPacket p) e ∧ e.dstHash = d ∧ e.validated = false ∧
        e.proofTimeoutMs = n.now + 60 * 1000) ∧
      q.hashablePart = (p.clamped (n.node.iface n.right).hwMtuBytes).hashablePart ∧
      AddressedTo (headId ns) q := by
  have hpart := p.bumped_hashablePart
  have hhash : dedupHash p.bumped = dedupHash p := by rw [dedupHash, hpart, dedupHash]
  obtain ⟨e, q, hr, hq, hto⟩ := hlead.route (p := p.bumped) hd hp
  obtain ⟨s, hstep⟩ := step_linkRequest (i := n.left) n.now (arriving_wireBytes p)
    ((hasSeen_congr n.node hpart).trans hs) hk hr
  rw [maybeClampLrSignalling_wireBytes] at hstep
  refine ⟨_, q.clamped (n.node.iface n.right).hwMtuBytes, ⟨_, hstep, rfl, rfl⟩,
    ⟨rfl, rfl, rfl, fun x hx hne => ?_⟩, fun _ => rfl,
    ⟨requestedLink p.bumped e n.left n.right n.now,
      ⟨?_, linkIdFromLrPacket_congr hpart rfl, rfl, rfl⟩, hd, rfl, rfl⟩, ?_, hto⟩
  · exact unseen_of_recorded (p := p.bumped) rfl hx (hhash ▸ hne)
  · refine (LinkTable.get_put _ _ _).trans (if_pos ?_)
    exact (linkIdFromLrPacket_congr hpart rfl).symm
  · obtain ⟨hlow, hqd, hqc, hqb⟩ := Packet.hashablePart_eq_iff.mp hq
    refine Packet.hashablePart_eq_iff.mpr ⟨hlow, hqd, hqc, ?_⟩
    change clampSignalling q.data _ = clampSignalling p.data _
    rw [hqb]
    rfl

/-- What a relay is after a request, whose copies on the line are `all`. -/
structure Requested (all : List Packet) (id d : Bytes) (n n' : Relay) : Prop where
  key : ∀ x, n'.node.publicKeyFor x = n.node.publicKeyFor x
  entry : ∃ e, n'.Holds id e ∧ e.dstHash = d ∧ e.validated = false ∧
    e.proofTimeoutMs = n'.now + 60 * 1000
  unseen : ∀ p, n.node.hasSeen p = false → (∀ c ∈ all, dedupHash p ≠ dedupHash c) →
    n'.node.hasSeen p = false

theorem lrproof_left {n : Relay} {id : Bytes} {e : LinkEntry} {p : Packet} (he : n.Holds id e)
    (hd : p.destinationHash = id) (hk : p.handler = .linkProof)
    (hv : n.node.lrproofVerifies e p = true) (hs : n.node.hasSeen p = false) :
    ∃ n', n.Left p.wireBytes n' p.bumped.wireBytes ∧ n'.Up id := by
  have hroute : n.node.provenLink n.right p.bumped = some (e, n.left) := by
    rw [provenLink, p.bumped_destinationHash, hd, he.get, Option.filter_some,
      if_pos (decide_eq_true ⟨he.nhIf, hv⟩), Option.bind_some, he.rcvdIf]
    rfl
  obtain ⟨s, hstep⟩ := step_linkProof (i := n.right) n.now (arriving_wireBytes p)
    ((hasSeen_congr n.node p.bumped_hashablePart).trans hs) hk hroute
  exact ⟨_, ⟨_, hstep, rfl, rfl⟩, { e with validated := true, lastActivityMs := n.now },
    ⟨LinkTable.get_getMut_of _ he.get hd, he.linkId, he.rcvdIf, he.nhIf⟩, rfl, rfl⟩

theorem linkData_forwards {n : Relay} {id : Bytes} {p : Packet} {i o : IfaceId}
    (hn : n.Carries id) (hio : i = n.left ∧ o = n.right ∨ i = n.right ∧ o = n.left)
    (hp : p.OnLink id) (hid : id ≠ pathRequestDestinationHash) (hs : n.node.hasSeen p = false) :
    ∃ n', n.Forwards i o p.wireBytes n' p.bumped.wireBytes ∧ n'.Up id := by
  obtain ⟨e, he, hv⟩ := hn
  obtain ⟨ht, hdt, hd, hc⟩ := hp
  have hk : p.handler = .linkData := Packet.handler_eq_linkData.mpr ⟨ht, hd ▸ hid, hdt⟩
  have hio : oppositeIf e i = some o := by
    rcases hio with ⟨rfl, rfl⟩ | ⟨rfl, rfl⟩
    · exact he.opposite_left
    · exact he.opposite_right
  have hroute : n.node.linkRoute i p.bumped = some (e, o) := by
    rw [linkRoute, p.bumped_destinationHash, hd, he.get, Option.filter_some,
      if_pos hv, Option.bind_some, hio]
    rfl
  obtain ⟨s, hstep⟩ := inbound_linkData_of_linkRoute (i := i)
    (t := { n.node with out := [] }) n.now (arriving_wireBytes p)
    ((hasSeen_congr n.node p.bumped_hashablePart).trans hs) hk hroute
  have hget : (n.node.relayedLinks p.bumped n.now).get id =
      some { e with lastActivityMs := n.now } := by
    rw [get_relayedLinks, p.bumped_destinationHash, if_pos hd.symm, p.bumped_context, if_neg hc,
      he.get]
    rfl
  exact ⟨_, ⟨_, hstep, rfl, rfl⟩, { e with lastActivityMs := n.now },
    ⟨hget, he.linkId, he.rcvdIf, he.nhIf⟩, hv, rfl⟩

end Relay

section
variable [CryptoLib]
open Transport

/-- A request for `d` goes up a line of paths to it, and every relay files it under one link id. -/
theorem request_rightward {d : Bytes} {ns : List Relay} {request : Packet} (hlead : PathsLead d ns)
    (hd : request.destinationHash = d) (hto : AddressedTo (headId ns) request)
    (ht : request.packetType = .linkRequest) (hb : Packet.RequestBody request.data)
    (hs : ∀ n ∈ ns, ∀ c ∈ requestCopies ns request, n.node.hasSeen c = false) :
    ∃ ns', ∃ received : Packet, Rightward Relay.Right ns request.wireBytes ns' received.wireBytes ∧
      List.Forall₂ (Relay.Requested (requestCopies ns request) (linkIdFromLrPacket request) d)
        ns ns' ∧ received.headerType = .header1 ∧ request.SameRequest received := by
  obtain ⟨ns', w, hright, hall, received, p, rfl, hpart, hsame, hto, -⟩ := Rightward.exists_of
    (R := Relay.Right)
    (I := fun ms w => ∃ q p : Packet, w = q.wireBytes ∧ q.hashablePart = p.hashablePart ∧
      request.SameRequest p ∧ AddressedTo (headId ms) q ∧ PathsLead d ms ∧
      (∀ n ∈ ms, ∀ c ∈ requestCopies ms p, n.node.hasSeen c = false) ∧
      ∀ c ∈ requestCopies ms p, c ∈ requestCopies ns request)
    (P := Relay.Requested (requestCopies ns request) (linkIdFromLrPacket request) d)
    (fun n ms w hI => by
      obtain ⟨q, p, rfl, hpart, hsame, hto, ⟨hlead, hrest⟩, hs, hin⟩ := hI
      have hq : request.SameRequest q := hsame.trans (.of_hashablePart hpart)
      have hqk : q.handler = .linkRequest :=
        Packet.handler_eq_linkRequest.mpr ((packetTypeOf_congr hq.low).trans ht)
      have hhash : dedupHash q = dedupHash p := by rw [dedupHash, hpart, dedupHash]
      have hqs := (hasSeen_congr n.node hpart).trans
        (hs n (List.mem_cons_self ..) p (List.mem_cons_self ..))
      obtain ⟨n', q', hright, hc, hkey, ⟨e, he, hed, hev, hex⟩, hq', hto'⟩ :=
        Relay.request_right hlead (hq.destinationHash.trans hd) hto hqk hqs
      rw [hq.linkId hb] at he
      refine ⟨n', q'.wireBytes, hright, ⟨hkey, ⟨e, he, hed, hev, hex.trans (by rw [hc.now])⟩,
        fun x hx hne => hc.unseen x hx (hhash ▸ hne p (hin p (List.mem_cons_self ..)))⟩,
        q', p.clamped _, rfl, hq'.trans ?_, hsame.trans (p.sameRequest_clamped _), hto', hrest,
        fun m hm c hc => hs m (List.mem_cons_of_mem _ hm) c (List.mem_cons_of_mem _ hc),
        fun c hc => hin c (List.mem_cons_of_mem _ hc)⟩
      obtain ⟨hlow, hqd, hqc, hqb⟩ := Packet.hashablePart_eq_iff.mp hpart
      refine Packet.hashablePart_eq_iff.mpr ⟨hlow, hqd, hqc, ?_⟩
      exact congrArg (clampSignalling · _) hqb)
    ⟨request, request, rfl, rfl, .of_hashablePart rfl, hto, hlead, hs, fun _ hc => hc⟩
  exact ⟨ns', received, hright, hall, hto.1 rfl, hsame.trans (.of_hashablePart hpart)⟩

theorem lrproofVerifies_of {t : Transport} {e : LinkEntry} {p : Packet}
    {pub signature xPub signalling : Bytes} (hpub : t.publicKeyFor e.dstHash = some pub)
    (hlen : pub.length = pubKeyLen) (hdata : p.data = signature ++ (xPub ++ signalling))
    (hs : signature.length = 64) (hx : xPub.length = 32)
    (hsig : signalling = [] ∨ signalling.length = linkMtuSize)
    (hv : ed25519Verify (pub.slice 32 32) signature
      (lrproofSignedData p.destinationHash xPub (pub.slice 32 32) signalling) = true) :
    t.lrproofVerifies e p = true := by
  have h₁ : p.data.slice 0 64 = signature := by rw [hdata, Bytes.slice_append_left hs]
  have h₂ : p.data.slice 64 32 = xPub := by
    rw [hdata, Bytes.slice_append_right _ _ hs, List.take_left' hx]
  have h₃ : p.data.length = 96 + signalling.length := by
    simp only [hdata, List.length_append, hs, hx]
    omega
  have h₄ : (if p.data.length = 99 then p.data.slice 96 3 else []) = signalling := by
    rcases hsig with rfl | hsig
    · rw [if_neg (by rw [h₃]; simp)]
    · rw [if_pos (by rw [h₃, hsig]; rfl), hdata, ← List.append_assoc, Bytes.slice_append_right _ _
        (by rw [List.length_append, hs, hx]),
        List.take_of_length_le (show signalling.length ≤ 3 from hsig.le)]
  have h₅ : ¬ (p.data.length ≠ 96 ∧ p.data.length ≠ 99) := by
    rw [h₃]
    rcases hsig with rfl | hsig
    · simp
    · simp [hsig, linkMtuSize]
  simp only [lrproofVerifies, if_neg h₅, h₁, h₂, h₄, hpub, hlen, hv, ne_eq, not_true_eq_false,
    ↓reduceIte]

theorem lrproofVerifies_congr {t : Transport} {e : LinkEntry} {p q : Packet}
    (h : p.SameButHops q) : t.lrproofVerifies e q = t.lrproofVerifies e p := by
  unfold lrproofVerifies
  rw [h.data, h.destinationHash]

theorem lrproof_leftward {id : Bytes} {ns : List Relay} {proof : Packet}
    (hd : proof.destinationHash = id) (hk : proof.handler = .linkProof)
    (hs : ∀ n ∈ ns, n.node.hasSeen proof = false)
    (he : ∀ n ∈ ns, ∃ e, n.Holds id e ∧ n.node.lrproofVerifies e proof = true) :
    ∃ ns', ∃ returned : Packet, Leftward Relay.Left ns proof.wireBytes ns' returned.wireBytes ∧
      proof.SameButHops returned ∧ ∀ n' ∈ ns', n'.Up id := by
  obtain ⟨ns', w, hleft, hup, q, rfl, hq⟩ := Leftward.exists_of (R := Relay.Left)
    (C := fun n => n.node.hasSeen proof = false ∧
      ∃ e, n.Holds id e ∧ n.node.lrproofVerifies e proof = true)
    (J := fun w => ∃ q : Packet, w = q.wireBytes ∧ proof.SameButHops q)
    (P := fun _ n' => n'.Up id)
    (fun n w hC hJ => by
      obtain ⟨hs, e, he, hv⟩ := hC
      obtain ⟨q, rfl, hq⟩ := hJ
      have hqk : q.handler = .linkProof :=
        (Packet.handler_congr (by rw [hq.flags]) hq.destinationHash hq.context).trans hk
      obtain ⟨n', hleft, hup⟩ := Relay.lrproof_left he (hq.destinationHash.trans hd) hqk
        ((lrproofVerifies_congr hq).trans hv) ((hasSeen_congr n.node hq.hashablePart).trans hs)
      exact ⟨n', _, hleft, hup, q.bumped, rfl, hq.bumped⟩)
    (fun n hn => ⟨hs n hn, he n hn⟩) ⟨proof, rfl, proof.sameButHops_refl⟩
  exact ⟨ns', q, hleft, hq, forall_right_of_forall₂ hup fun _ _ h => h⟩

/-- Once a line has filed a request, a new LRPROOF of it with a good signature comes down the line,
and leaves the link established. -/
theorem lrproof_validates {all : List Packet} {id d pub signature xPub signalling : Bytes}
    {ns ns₁ ns₂ : List Relay} {proof : Packet}
    (hall : List.Forall₂ (Relay.Requested all id d) ns ns₁)
    (hwait : List.Forall₂ (Relay.Waits (60 * 1000)) ns₁ ns₂)
    (hkey : ∀ m ∈ ns, m.node.publicKeyFor d = some pub) (hlen : pub.length = pubKeyLen)
    (hs : ∀ m ∈ ns, m.node.hasSeen proof = false)
    (hfree : ∀ c ∈ all, dedupHash proof ≠ dedupHash c) (hk : proof.handler = .linkProof)
    (hd : proof.destinationHash = id) (hdata : proof.data = signature ++ (xPub ++ signalling))
    (hsl : signature.length = 64) (hx : xPub.length = 32)
    (hsig : signalling = [] ∨ signalling.length = linkMtuSize)
    (hv : ed25519Verify (pub.slice 32 32) signature
      (lrproofSignedData proof.destinationHash xPub (pub.slice 32 32) signalling) = true) :
    ∃ ns', ∃ returned : Packet, Leftward Relay.Left ns₂ proof.wireBytes ns' returned.wireBytes ∧
      proof.SameButHops returned ∧ ∀ m ∈ ns', m.Up id := by
  have hs₁ : ∀ m ∈ ns₁, m.node.hasSeen proof = false :=
    forall_of_forall₂ hall hs fun m m' hm h => hm.unseen proof h hfree
  have hs₂ : ∀ m ∈ ns₂, m.node.hasSeen proof = false :=
    forall_of_forall₂ hwait hs₁ fun m m' hm h => hm.hasSeen h
  have hpending : ∀ m ∈ ns₁, m.node.publicKeyFor d = some pub ∧ ∃ e, m.Holds id e ∧
      e.dstHash = d ∧ e.validated = false ∧ e.proofTimeoutMs = m.now + 60 * 1000 :=
    forall_of_forall₂ hall hkey fun m m' hm h => ⟨(hm.key d).trans h, hm.entry⟩
  have hverifies : ∀ m ∈ ns₂, ∃ e, m.Holds id e ∧ m.node.lrproofVerifies e proof = true := by
    refine forall_of_forall₂ hwait hpending fun m m' hm ⟨hpub, e, he, hed, hev, hex⟩ => ?_
    have hpub' : m'.node.publicKeyFor e.dstHash = some pub := by rw [hed, hm.publicKeyFor, hpub]
    refine ⟨e, hm.holds he (fun _ => hex.ge) fun hval => ?_,
      lrproofVerifies_of hpub' hlen hdata hsl hx hsig hv⟩
    rw [hev] at hval
    cases hval
  exact lrproof_leftward hd hk hs₂ hverifies

/-! ### The established link -/

theorem linkData_rightward {id : Bytes} {ns : List Relay} {data : Packet} (hp : data.OnLink id)
    (hid : id ≠ pathRequestDestinationHash) (hs : ∀ n ∈ ns, n.node.hasSeen data = false)
    (hc : ∀ n ∈ ns, n.Carries id) : ∃ ns', ∃ out : Packet,
      Rightward Relay.Right ns data.wireBytes ns' out.wireBytes ∧ data.SameButHops out := by
  obtain ⟨ns', w, hright, -, q, ⟨rfl, hq⟩, -⟩ := Rightward.exists_of (R := Relay.Right)
    (I := fun ms w => ∃ q : Packet, (w = q.wireBytes ∧ data.SameButHops q) ∧
      ∀ n ∈ ms, n.node.hasSeen data = false ∧ n.Carries id)
    (P := fun _ _ => True)
    (fun n ms w hI => by
      obtain ⟨q, ⟨rfl, hq⟩, hall⟩ := hI
      obtain ⟨hs, hc⟩ := hall n (List.mem_cons_self ..)
      obtain ⟨n', hright, -⟩ := Relay.linkData_forwards hc (.inl ⟨rfl, rfl⟩) (hq.onLink hp) hid
        ((hasSeen_congr n.node hq.hashablePart).trans hs)
      exact ⟨n', _, hright, trivial, q.bumped, ⟨rfl, hq.bumped⟩,
        fun m hm => hall m (List.mem_cons_of_mem _ hm)⟩)
    ⟨data, ⟨rfl, data.sameButHops_refl⟩, fun n hn => ⟨hs n hn, hc n hn⟩⟩
  exact ⟨ns', q, hright, hq⟩

theorem linkData_leftward {id : Bytes} {ns : List Relay} {data : Packet} (hp : data.OnLink id)
    (hid : id ≠ pathRequestDestinationHash) (hs : ∀ n ∈ ns, n.node.hasSeen data = false)
    (hc : ∀ n ∈ ns, n.Carries id) : ∃ ns', ∃ out : Packet,
      Leftward Relay.Left ns data.wireBytes ns' out.wireBytes ∧ data.SameButHops out := by
  obtain ⟨ns', w, hleft, -, q, rfl, hq⟩ := Leftward.exists_of (R := Relay.Left)
    (C := fun n => n.node.hasSeen data = false ∧ n.Carries id)
    (J := fun w => ∃ q : Packet, w = q.wireBytes ∧ data.SameButHops q)
    (P := fun _ _ => True)
    (fun n w hC hJ => by
      obtain ⟨hs, hc⟩ := hC
      obtain ⟨q, rfl, hq⟩ := hJ
      obtain ⟨n', hleft, -⟩ := Relay.linkData_forwards hc (.inr ⟨rfl, rfl⟩) (hq.onLink hp) hid
        ((hasSeen_congr n.node hq.hashablePart).trans hs)
      exact ⟨n', _, hleft, trivial, q.bumped, rfl, hq.bumped⟩)
    (fun n hn => ⟨hs n hn, hc n hn⟩) ⟨data, rfl, data.sameButHops_refl⟩
  exact ⟨ns', q, hleft, hq⟩

/-- `LinkUse id ns ns'`: the line has come from `ns` to `ns'` by DATA on the link `id` going through
in either direction, with fewer than ten minutes at each relay from one packet to the next. -/
inductive LinkUse (id : Bytes) (ns : List Relay) : List Relay → Prop
  | nil : LinkUse id ns ns
  | right {ns₁ ns₂ ns₃ : List Relay} {data : Packet} {w : Bytes} :
    LinkUse id ns ns₁ → List.Forall₂ (Relay.Waits linkStaleThresholdMs) ns₁ ns₂ →
    data.OnLink id → Rightward Relay.Right ns₂ data.wireBytes ns₃ w → LinkUse id ns ns₃
  | left {ns₁ ns₂ ns₃ : List Relay} {data : Packet} {w : Bytes} :
    LinkUse id ns ns₁ → List.Forall₂ (Relay.Waits linkStaleThresholdMs) ns₁ ns₂ →
    data.OnLink id → Leftward Relay.Left ns₂ data.wireBytes ns₃ w → LinkUse id ns ns₃

theorem Relay.Carries.up {n n' : Relay} {id w w' : Bytes} {data : Packet} {i o : IfaceId}
    (hn : n.Carries id) (hio : i = n.left ∧ o = n.right ∨ i = n.right ∧ o = n.left)
    (hp : data.OnLink id) (hid : id ≠ pathRequestDestinationHash)
    (hw : ∃ q : Packet, w = q.wireBytes ∧ data.SameButHops q) (h : n.Forwards i o w n' w') :
    n'.Up id ∧ ∃ q : Packet, w' = q.wireBytes ∧ data.SameButHops q := by
  obtain ⟨q, rfl, hq⟩ := hw
  obtain ⟨n'', hf, hup⟩ := Relay.linkData_forwards hn hio (hq.onLink hp) hid h.unseen
  obtain ⟨rfl, rfl⟩ := h.det hf
  exact ⟨hup, q.bumped, rfl, hq.bumped⟩

theorem carries_of_waits {id : Bytes} {ns ns' : List Relay}
    (h : List.Forall₂ (Relay.Waits linkStaleThresholdMs) ns ns') (hup : ∀ n ∈ ns, n.Up id) :
    ∀ n' ∈ ns', n'.Carries id :=
  forall_of_forall₂ h hup fun _ _ hn h => hn.carries h

theorem LinkUse.up {id : Bytes} {ns ns' : List Relay} (h : LinkUse id ns ns')
    (hid : id ≠ pathRequestDestinationHash) (hup : ∀ n ∈ ns, n.Up id) : ∀ n' ∈ ns', n'.Up id := by
  induction h with
  | nil => exact hup
  | @right ns₁ ns₂ ns₃ data w _ hwait hp hright ih =>
    exact (hright.inv (fun n w n' w' hc hw hf => hc.up (.inl ⟨rfl, rfl⟩) hp hid hw hf)
      (carries_of_waits hwait ih) ⟨data, rfl, data.sameButHops_refl⟩).1
  | @left ns₁ ns₂ ns₃ data w _ hwait hp hleft ih =>
    exact (hleft.inv (fun n w n' w' hc hw hf => hc.up (.inr ⟨rfl, rfl⟩) hp hid hw hf)
      (carries_of_waits hwait ih) ⟨data, rfl, data.sameButHops_refl⟩).1

/-- On a line of relays that have a path for `d` through the next one, and the public key of `d`,
every new request that the first relay is asked to carry reaches `d`, filed everywhere under the
link id that both ends compute, whatever the MTUs on the way; an LRPROOF of it signed by `d` comes
back and validates every entry; and from then on new DATA on the link goes through in both
directions. -/
theorem establishes_link (hv : VerifiesOwn) {priv : Bytes} {ident : Identity} {d : Bytes}
    (hident : Identity.fromPrivateBytes priv = .ok ident) {n : Relay} {ns : List Relay}
    (hlead : PathsLead d (n :: ns))
    (hkey : ∀ m ∈ n :: ns, m.node.publicKeyFor d = some ident.publicKey)
    {request : Packet} (ht : request.packetType = .linkRequest) (h2 : request.headerType = .header2)
    (hto : request.transportId = n.id) (hd : request.destinationHash = d)
    (hbody : request.data.length = 64 ∨ request.data.length = 67)
    (hnew : ∀ m ∈ n :: ns, ∀ c ∈ requestCopies (n :: ns) request, m.node.hasSeen c = false) :
    ∃ ns₁, ∃ received : Packet,
      Rightward Relay.Right (n :: ns) request.wireBytes ns₁ received.wireBytes ∧
      received.headerType = .header1 ∧ received.packetType = .linkRequest ∧
      received.destinationHash = d ∧ linkIdFromLrPacket received = linkIdFromLrPacket request ∧
      (∀ m ∈ ns₁, ∃ e, m.node.linkTable.get (linkIdFromLrPacket received) = some e ∧
        e.linkId = linkIdFromLrPacket received) ∧
      ∀ {ns₂ : List Relay} {xPub signalling signature : Bytes} {proof : Packet},
        List.Forall₂ (Relay.Waits (60 * 1000)) ns₁ ns₂ → xPub.length = 32 →
        (signalling = [] ∨ signalling = received.data.drop 64) →
        ed25519Sign (ident.privateKey.slice 32 32) (lrproofSignedData (linkIdFromLrPacket received)
          xPub (ident.publicKey.slice 32 32) signalling) = .ok signature →
        proof.packetType = .proof → proof.context = contextLrproof →
        proof.destinationHash = linkIdFromLrPacket received →
        proof.data = signature ++ (xPub ++ signalling) →
        (∀ m ∈ n :: ns, m.node.hasSeen proof = false) →
        CollisionFree (proof :: requestCopies (n :: ns) request) →
        ∃ ns₃, ∃ returned : Packet,
          Leftward Relay.Left ns₂ proof.wireBytes ns₃ returned.wireBytes ∧
          proof.SameButHops returned ∧
          (∀ m ∈ ns₃, ∃ e, m.node.linkTable.get (linkIdFromLrPacket received) = some e ∧
            e.validated = true) ∧
          ∀ {ns₄ ns₅ : List Relay} {data : Packet},
            linkIdFromLrPacket received ≠ pathRequestDestinationHash →
            LinkUse (linkIdFromLrPacket received) ns₃ ns₄ →
            List.Forall₂ (Relay.Waits linkStaleThresholdMs) ns₄ ns₅ →
            data.OnLink (linkIdFromLrPacket received) →
            (∀ m ∈ ns₅, m.node.hasSeen data = false) →
            (∃ ns₆, ∃ out : Packet, Rightward Relay.Right ns₅ data.wireBytes ns₆ out.wireBytes ∧
              data.SameButHops out) ∧
            ∃ ns₆, ∃ out : Packet, Leftward Relay.Left ns₅ data.wireBytes ns₆ out.wireBytes ∧
              data.SameButHops out := by
  have hb : Packet.RequestBody request.data := hbody
  -- the request goes up
  obtain ⟨ns₁, received, hright, hall, h1, hsame⟩ := request_rightward hlead hd
    (addressedTo_some.mpr ⟨h2, hto⟩) ht hb hnew
  rw [← hsame.linkId hb] at hall
  refine ⟨ns₁, received, hright, h1, (packetTypeOf_congr hsame.low).trans ht,
    hsame.destinationHash.trans hd, hsame.linkId hb, ?_, ?_⟩
  · refine forall_right_of_forall₂ hall fun m m' hm => ?_
    obtain ⟨e, he, -⟩ := hm.entry
    exact ⟨e, he.get, he.linkId⟩
  intro ns₂ xPub signalling signature proof hwait hx hsig hsign hpt hpc hpd hpb hpnew hfree
  -- the LRPROOF comes down
  have hedPub := (Identity.genuine_of_fromPrivateBytes hident).edPub
  have hver := hv.ed25519Verify hsign
  rw [← hedPub, ← hpd] at hver
  have hsig : signalling = [] ∨ signalling.length = linkMtuSize := by
    rcases hsig with rfl | rfl
    · exact .inl rfl
    · rw [List.length_drop, hsame.length]
      rcases hbody with hlen | hlen
      · exact .inl (List.drop_of_length_le (by rw [hsame.length, hlen]))
      · exact .inr (by rw [hlen]; rfl)
  have hdistinct : ∀ c ∈ requestCopies (n :: ns) request, dedupHash proof ≠ dedupHash c := by
    intro c hc
    have hct : c.packetType = .linkRequest :=
      (packetTypeOf_congr (Packet.SameRequest.of_mem_requestCopies hc).low).trans ht
    refine hfree.dedupHash_ne (List.mem_cons_self ..) (List.mem_cons_of_mem _ hc) ?_
    rw [hpt, hct]
    decide
  obtain ⟨ns₃, returned, hleft, hreturned, hup⟩ := lrproof_validates hall hwait hkey
    ident.publicKey_length hpnew hdistinct (Packet.handler_eq_linkProof.mpr ⟨hpt, hpc⟩) hpd hpb
    (length_of_ed25519Sign hsign) hx hsig hver
  refine ⟨ns₃, returned, hleft, hreturned, fun m hm => ?_, ?_⟩
  · obtain ⟨e, he, hval, -⟩ := hup m hm
    exact ⟨e, he.get, hval⟩
  -- the link is up
  intro ns₄ ns₅ data hid huse hwait₂ hp hs
  have hcarries := carries_of_waits hwait₂ (huse.up hid hup)
  exact ⟨linkData_rightward hp hid hs hcarries, linkData_leftward hp hid hs hcarries⟩

end

open Vectors
attribute [local instance] lib

def knowsAlice (t : Transport) : Bool :=
  ((t.paths.get aliceDest).map fun e => (e.receivingInterface, e.hops)) = some (some 1, 1) ∧
    t.publicKeyFor aliceDest = some alicePub

theorem pathsLead_of_knowsAlice {t : Transport} (h : knowsAlice t = true) :
    PathsLead aliceDest [{ standing bob with node := t }] ∧
      t.publicKeyFor aliceDest = some alice.publicKey := by
  obtain ⟨hpath, hkey⟩ := of_decide_eq_true h
  obtain ⟨e, he, hroute⟩ := Option.map_eq_some_iff.mp hpath
  obtain ⟨ho, hhops⟩ := Prod.mk.inj hroute
  exact ⟨⟨⟨e, he, ho, fun _ => hhops, fun _ hnone => by cases hnone⟩, trivial⟩, hkey⟩

set_option maxRecDepth 100000 in
theorem bob_links : (do
    let t ← (standing bob).node.steps [.inbound 1 aliceAnnouncePacket.wireBytes 1000, .tick 1000]
    let t₁ ← t.step (.inbound 0 requestPacket.wireBytes 1000)
    let t₂ ← t₁.step (.inbound 1 lrproofPacket.wireBytes 1000)
    return (knowsAlice t, t.hasSeen requestPacket, t.hasSeen lrproofPacket,
      t₂.hasSeen keepalivePacket)) =
    Except.ok (true, false, false, false) := by
  decide +kernel

/-- Bob carries a link to Alice, and its keepalives. -/
theorem establishes_link_alice : ∃ ns ns' ns'' : List Relay, ∃ received returned out : Packet,
    Rightward Relay.Right ns requestPacket.wireBytes ns' received.wireBytes ∧
    received.headerType = .header1 ∧ linkIdFromLrPacket received = linkId ∧
    Leftward Relay.Left ns' lrproofPacket.wireBytes ns'' returned.wireBytes ∧
    (∀ n ∈ ns'', ∃ e, n.node.linkTable.get linkId = some e ∧ e.validated = true) ∧
    ∃ ms, Rightward Relay.Right ns'' keepalivePacket.wireBytes ms out.wireBytes ∧
      keepalivePacket.SameButHops out := by
  obtain ⟨t, ht, h⟩ := bind_eq_ok bob_links
  obtain ⟨t₁, h₁, h⟩ := bind_eq_ok h
  obtain ⟨t₂, h₂, h⟩ := bind_eq_ok h
  obtain ⟨hknow, h⟩ := Prod.mk.inj (Except.ok.inj h)
  obtain ⟨hreq, h⟩ := Prod.mk.inj h
  obtain ⟨hproof, hdata⟩ := Prod.mk.inj h
  obtain ⟨hlead, hkey⟩ := pathsLead_of_knowsAlice hknow
  have hlink : linkIdFromLrPacket requestPacket = linkId := by decide +kernel
  have hcopies : requestCopies [{ standing bob with node := t }] requestPacket =
      [requestPacket, requestPacket] := by
    rw [requestCopies, requestCopies, Packet.clamped_of_length (by decide)]
  have hlocal : requestPacket.transportId = t.localIdentity.identityHash := by
    rw [Transport.steps_localIdentity ht]
    rfl
  have hnew : ∀ m ∈ [{ standing bob with node := t }],
      ∀ c ∈ requestCopies [{ standing bob with node := t }] requestPacket,
        m.node.hasSeen c = false := by
    simpa [hcopies] using hreq
  obtain ⟨ns₁, received, hright, h1, -, -, hid, -, hrest⟩ := establishes_link verifiesOwn_lib
    fromPrivateBytes_alice hlead (List.forall_mem_singleton.mpr hkey) (by decide) (by decide)
    hlocal rfl (.inl (by decide)) hnew
  rw [hid, hlink] at hrest
  have hfree : CollisionFree [lrproofPacket, requestPacket] :=
    collisionFree_of_nodup (by decide +kernel)
  have hsign : ed25519Sign (alice.privateKey.slice 32 32) (Transport.lrproofSignedData linkId
      (List.replicate 32 0x11) (alice.publicKey.slice 32 32) []) = .ok proofSignature := by
    decide +kernel
  obtain ⟨ns₃, returned, hleft, -, hval, hrest⟩ := hrest
    (List.forall₂_same.mpr fun n _ => n.wait _ n.now) (by decide) (.inl rfl) hsign (by decide)
    rfl rfl (show lrproofPacket.data = _ from rfl) (List.forall_mem_singleton.mpr hproof)
    (by rw [hcopies]; exact fun p hp q hq => hfree p (by simpa using hp) q (by simpa using hq))
  have hseen : ∀ m ∈ ns₃, m.node.hasSeen keepalivePacket = false := by
    cases hright with
    | cons hr hnil =>
      cases hnil
      obtain ⟨t', ht', -, rfl⟩ := hr
      cases h₁.symm.trans ht'
      cases hleft with
      | cons hnil hl =>
        cases hnil
        obtain ⟨t', ht', -, rfl⟩ := hl
        cases h₂.symm.trans ht'
        exact List.forall_mem_singleton.mpr hdata
  obtain ⟨⟨ms, out, hout, hsame⟩, -⟩ := hrest linkId_ne_pathRequest .nil
    (List.forall₂_same.mpr fun n _ => n.wait _ n.now)
    ⟨by decide, by decide, rfl, by decide⟩ hseen
  exact ⟨_, ns₁, ns₃, received, returned, out, hright, h1, hid.trans hlink, hleft, hval, ms, hout,
    hsame⟩

set_option maxRecDepth 100000 in
theorem bob_relinks : (do
    let t ← (standing bob).node.steps [.inbound 1 aliceAnnouncePacket.wireBytes 1000, .tick 1000]
    let t₁ ← t.step (.inbound 0 requestPacket.wireBytes 1000)
    let t₂ ← t₁.step (.inbound 0 requestPacket.wireBytes 1000)
    let u ← t.step (.inbound 1 lrproofPacket.wireBytes 1000)
    let u₁ ← u.step (.inbound 0 requestPacket.wireBytes 1000)
    let u₂ ← u₁.step (.inbound 1 lrproofPacket.wireBytes 1000)
    return (knowsAlice t && knowsAlice t₁ && knowsAlice u,
      [t₁, t₂, u₁, u₂].map Transport.transmissions)) =
    Except.ok (true, [[(1, requestPacket.bumped.asHeader1.wireBytes)], [],
      [(1, requestPacket.bumped.asHeader1.wireBytes)], []]) := by
  decide +kernel

/-- Bob carries the request once; and where an LRPROOF has come before its request, he does not
carry it after the request either. -/
theorem early_lrproof_not_returned : ∃ n n₁ n₂ n₃ : Relay, ∃ received : Packet,
    (∀ m ∈ [n, n₁, n₂], PathsLead aliceDest [m] ∧
      m.node.publicKeyFor aliceDest = some alice.publicKey) ∧
    requestPacket.packetType = .linkRequest ∧ requestPacket.headerType = .header2 ∧
    requestPacket.transportId = n.id ∧ requestPacket.destinationHash = aliceDest ∧
    requestPacket.data.length = 64 ∧
    Rightward Relay.Right [n] requestPacket.wireBytes [n₁] received.wireBytes ∧
    (∀ ns w, ¬ Rightward Relay.Right [n₁] requestPacket.wireBytes ns w) ∧
    Rightward Relay.Right [n₂] requestPacket.wireBytes [n₃] received.wireBytes ∧
    lrproofPacket.packetType = .proof ∧ lrproofPacket.context = contextLrproof ∧
    lrproofPacket.destinationHash = linkIdFromLrPacket received ∧
    lrproofPacket.data = proofSignature ++ (List.replicate 32 0x11 ++ []) ∧
    ed25519Sign (alice.privateKey.slice 32 32) (Transport.lrproofSignedData
      (linkIdFromLrPacket received) (List.replicate 32 0x11) (alice.publicKey.slice 32 32) []) =
        .ok proofSignature ∧
    CollisionFree [lrproofPacket, requestPacket] ∧
    ∀ ns w, ¬ Leftward Relay.Left [n₃] lrproofPacket.wireBytes ns w := by
  obtain ⟨t, ht, h⟩ := bind_eq_ok bob_relinks
  obtain ⟨t₁, h₁, h⟩ := bind_eq_ok h
  obtain ⟨t₂, h₂, h⟩ := bind_eq_ok h
  obtain ⟨u, hu, h⟩ := bind_eq_ok h
  obtain ⟨u₁, hu₁, h⟩ := bind_eq_ok h
  obtain ⟨u₂, hu₂, h⟩ := bind_eq_ok h
  obtain ⟨hknow, hout⟩ := Prod.mk.inj (Except.ok.inj h)
  simp only [Bool.and_eq_true] at hknow
  obtain ⟨⟨hn, hn₁⟩, hn₂⟩ := hknow
  simp only [List.map_cons, List.map_nil, List.cons.injEq, and_true] at hout
  obtain ⟨hout₁, hout₂, hout₃, hout₄⟩ := hout
  have hid : requestPacket.transportId = t.localIdentity.identityHash := by
    rw [Transport.steps_localIdentity ht]
    rfl
  have hlink : linkIdFromLrPacket requestPacket.bumped.asHeader1 = linkId := by decide +kernel
  have hknows : ∀ m ∈ [{ standing bob with node := t }, { standing bob with node := t₁ },
      { standing bob with node := u }], PathsLead aliceDest [m] ∧
        m.node.publicKeyFor aliceDest = some alice.publicKey := by
    simpa using ⟨pathsLead_of_knowsAlice hn, pathsLead_of_knowsAlice hn₁,
      pathsLead_of_knowsAlice hn₂⟩
  refine ⟨{ standing bob with node := t }, { standing bob with node := t₁ },
    { standing bob with node := u }, { standing bob with node := u₁ },
    requestPacket.bumped.asHeader1, hknows, by decide, by decide, hid, rfl, by decide,
    .cons ⟨t₁, h₁, hout₁, rfl⟩ .nil, ?_, .cons ⟨u₁, hu₁, hout₃, rfl⟩ .nil, by decide, rfl,
    hlink.symm, rfl, ?_, collisionFree_of_nodup (by decide +kernel), ?_⟩
  · intro ns w hright
    cases hright with
    | cons hr _ => exact Relay.not_forwards h₂ hout₂ hr
  · rw [hlink]
    decide +kernel
  · intro ns w hleft
    cases hleft with
    | cons hl hr =>
      cases hl
      exact Relay.not_forwards (n := { standing bob with node := u₁ }) hu₂ hout₄ hr

end Reticulum
