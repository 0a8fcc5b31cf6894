import Reticulum.Rns.Transport.Effect

/-!
# What `inbound` and `tick` do

`Packet.handler` is the dispatch of `inbound`. `inbound_of_*` say what each accepted packet does to
the node, `tick_frame` says the same of a tick.
-/

namespace Reticulum

inductive Handler where
  | announce | pathRequest | linkData | data | linkRequest | linkProof | proof
deriving DecidableEq, Repr

theorem arriving_hops {wire : Bytes} {p : Packet} (h : arriving wire = some p) :
    p.wireBytes = bumpHops wire := by
  unfold arriving at h
  split at h
  · cases h
  · cases hp : Packet.fromWireBytes (bumpHops wire) with
    | error e => rw [hp] at h; cases h
    | ok q =>
      rw [hp] at h
      cases h
      exact Packet.wireBytes_of_fromWireBytes hp

variable [CryptoLib]

/-- The handler `inbound` gives a packet to. -/
def Packet.handler (p : Packet) : Handler :=
  match p.packetType with
  | .announce => .announce
  | .data =>
    if p.destinationHash = pathRequestDestinationHash then .pathRequest
    else if p.destinationType = .link then .linkData
    else .data
  | .linkRequest => .linkRequest
  | .proof => if p.context = contextLrproof then .linkProof else .proof

namespace Packet
variable {p : Packet}

theorem handler_eq_announce : p.handler = .announce ↔ p.packetType = .announce := by
  unfold handler
  cases p.packetType <;> simp <;> split_ifs <;> simp

theorem handler_eq_linkRequest : p.handler = .linkRequest ↔ p.packetType = .linkRequest := by
  unfold handler
  cases p.packetType <;> simp <;> split_ifs <;> simp

theorem handler_eq_linkData : p.handler = .linkData ↔ p.packetType = .data ∧
    p.destinationHash ≠ pathRequestDestinationHash ∧ p.destinationType = .link := by
  unfold handler
  cases p.packetType <;> simp <;> split_ifs <;> simp_all

theorem handler_eq_data : p.handler = .data ↔ p.packetType = .data ∧
    p.destinationHash ≠ pathRequestDestinationHash ∧ p.destinationType ≠ .link := by
  unfold handler
  cases p.packetType <;> simp <;> split_ifs <;> simp_all

theorem handler_eq_linkProof :
    p.handler = .linkProof ↔ p.packetType = .proof ∧ p.context = contextLrproof := by
  unfold handler
  cases p.packetType <;> simp
  all_goals split_ifs <;> simp_all

theorem handler_eq_proof :
    p.handler = .proof ↔ p.packetType = .proof ∧ p.context ≠ contextLrproof := by
  unfold handler
  cases p.packetType <;> simp
  all_goals split_ifs <;> simp_all

end Packet

theorem Packet.handler_congr {p q : Packet}
    (hf : p.flags &&& lowNibbleMask = q.flags &&& lowNibbleMask)
    (hd : p.destinationHash = q.destinationHash) (hc : p.context = q.context) :
    p.handler = q.handler := by
  unfold handler packetType destinationType
  rw [packetTypeOf_congr hf, destinationTypeOf_congr hf, hd, hc]

namespace Transport

theorem dispatch_eq (t : Transport) (i : IfaceId) (p : Packet) (now : Nat) :
    t.dispatch i p now = match p.handler with
      | .announce => t.handleAnnounce i p now
      | .pathRequest => t.handlePathRequest i p
      | .linkData => .ok (t.handleLinkDataForward i p now)
      | .data => t.handleDataForward i p now
      | .linkRequest => t.handleLinkRequestForward i p now
      | .linkProof => .ok (t.handleLinkProofForward i p now)
      | .proof => .ok (t.handleProofForward i p) := by
  unfold dispatch Packet.handler
  cases p.packetType with
  | announce => rfl
  | data =>
    simp only
    split
    · rfl
    · split <;> rfl
  | linkRequest => rfl
  | proof => simp only; split <;> rfl

/-- Whether the packet, in any header form, is in the hash list. -/
def hasSeen (t : Transport) (p : Packet) : Bool := t.hashlist.contains (dedupHash p)

def recorded (t : Transport) (p : Packet) : PacketHashList := (t.hashlist.insert (dedupHash p)).2

theorem hasSeen_congr {p q : Packet} (t : Transport) (h : p.hashablePart = q.hashablePart) :
    t.hasSeen p = t.hasSeen q := by
  unfold hasSeen dedupHash
  rw [h]

theorem contains_recorded (t : Transport) (p q : Packet) :
    (t.recorded p).contains (dedupHash q) =
      (decide (dedupHash q = dedupHash p) || t.hasSeen q) :=
  PacketHashList.contains_insert _ _ _

def seen (t : Transport) (p : Packet) : Transport :=
  { t.count .inboundPackets with hashlist := t.recorded p }

theorem inbound_of_arriving_none {wire : Bytes} (t : Transport) (i : IfaceId) (now : Nat)
    (h : arriving wire = none) : ∃ s, t.inbound i wire now = .ok { t with stats := s } := by
  unfold arriving at h
  simp only [inbound]
  split
  · exact ⟨_, rfl⟩
  · rw [if_neg ‹_›] at h
    cases hp : Packet.fromWireBytes (bumpHops wire) with
    | error e =>
      obtain ⟨what, rfl⟩ := Packet.fromWireBytes_error hp
      exact ⟨_, rfl⟩
    | ok q => rw [hp] at h; cases h

theorem inbound_of_arriving {wire : Bytes} {p : Packet} (t : Transport) (i : IfaceId) (now : Nat)
    (h : arriving wire = some p) :
    t.inbound i wire now =
      if t.hasSeen p then
        .ok ((t.count .inboundPackets).count .dedupDrops)
      else (t.seen p).dispatch i p now := by
  unfold arriving at h
  split at h
  · cases h
  · have hp : Packet.fromWireBytes (bumpHops wire) = .ok p := by
      cases hp : Packet.fromWireBytes (bumpHops wire) with
      | error e => rw [hp] at h; cases h
      | ok q => rw [hp] at h; cases h; rfl
    simp only [inbound, if_neg ‹_›, hp, count_hashlist]
    cases hc : t.hasSeen p with
    | true => simp only [PacketHashList.insert_of_contains hc]; rfl
    | false => simp only [PacketHashList.insert_of_not_contains hc]; rfl

section
variable {t : Transport} {i : IfaceId} {wire : Bytes} {p : Packet} {now : Nat}

theorem inbound_of_hasSeen (h : arriving wire = some p) (hs : t.hasSeen p = true) :
    ∃ s, t.inbound i wire now = .ok { t with stats := s } := by
  rw [inbound_of_arriving t i now h, if_pos hs]
  exact ⟨_, rfl⟩

theorem inbound_of_not_hasSeen (h : arriving wire = some p) (hs : t.hasSeen p = false) :
    t.inbound i wire now = (t.seen p).dispatch i p now := by
  rw [inbound_of_arriving t i now h, if_neg (by simp [hs])]

variable (now) (h : arriving wire = some p) (hs : t.hasSeen p = false)
include h hs

theorem inbound_data_of_route_none (hk : p.handler = .data) (hr : t.route p = none) :
    ∃ s, t.inbound i wire now = .ok { t with stats := s, hashlist := t.recorded p } := by
  obtain ⟨s, hs'⟩ := handleDataForward_of_route_none (t := t.seen p) i now hr
  exact ⟨s, by rw [inbound_of_not_hasSeen h hs, dispatch_eq, hk]; exact hs'⟩

theorem inbound_data_of_route {q : Packet} {e : PathEntry} {o : IfaceId} (hk : p.handler = .data)
    (hr : t.route p = some (e, o, q)) :
    ∃ s, t.inbound i wire now = .ok { t with
      stats := s
      hashlist := t.recorded p
      out := t.out ++ [.transmit .dataForward o q.wireBytes]
      reverseTable := t.reverseTable.put ⟨proofHash p, some i, some o, now⟩ } := by
  obtain ⟨s, hs'⟩ := handleDataForward_of_route (t := t.seen p) i now hr
  exact ⟨s, by rw [inbound_of_not_hasSeen h hs, dispatch_eq, hk]; exact hs'⟩

theorem inbound_linkRequest_of_route_none (hk : p.handler = .linkRequest) (hr : t.route p = none) :
    ∃ s, t.inbound i wire now = .ok { t with stats := s, hashlist := t.recorded p } := by
  have hs' := handleLinkRequestForward_of_route_none (t := t.seen p) i now hr
  exact ⟨(t.seen p).stats, by rw [inbound_of_not_hasSeen h hs, dispatch_eq, hk]; exact hs'⟩

theorem inbound_linkRequest_of_route {q : Packet} {e : PathEntry} {o : IfaceId}
    (hk : p.handler = .linkRequest) (hr : t.route p = some (e, o, q)) :
    ∃ s, t.inbound i wire now = .ok { t with
      stats := s
      hashlist := t.recorded p
      out := t.out ++ [.transmit .linkForward o
        (maybeClampLrSignalling q.wireBytes (t.iface o).hwMtuBytes)]
      linkTable := t.linkTable.put (requestedLink p e i o now) } := by
  obtain ⟨s, hs'⟩ := handleLinkRequestForward_of_route (t := t.seen p) i now hr
  exact ⟨s, by rw [inbound_of_not_hasSeen h hs, dispatch_eq, hk]; exact hs'⟩

theorem inbound_proof_of_proofRoute_none (hk : p.handler = .proof) (hr : t.proofRoute i p = none) :
    ∃ s, t.inbound i wire now = .ok { t with stats := s, hashlist := t.recorded p } := by
  obtain ⟨s, hs'⟩ := handleProofForward_of_proofRoute_none (t := t.seen p) hr
  exact ⟨s, by rw [inbound_of_not_hasSeen h hs, dispatch_eq, hk]; exact congrArg Except.ok hs'⟩

theorem inbound_proof_of_proofRoute {e : ReverseEntry} (hk : p.handler = .proof)
    (hr : t.proofRoute i p = some e) :
    ∃ s, t.inbound i wire now = .ok { t with
      stats := s
      hashlist := t.recorded p
      out := t.out ++ e.receivedIf.toList.map fun f => .transmit .proofForward f p.wireBytes
      reverseTable := (t.reverseTable.pop p.destinationHash).2 } := by
  obtain ⟨s, hs'⟩ := handleProofForward_of_proofRoute (t := t.seen p) hr
  exact ⟨s, by rw [inbound_of_not_hasSeen h hs, dispatch_eq, hk]; exact congrArg Except.ok hs'⟩

theorem inbound_linkProof_of_provenLink_none (hk : p.handler = .linkProof)
    (hr : t.provenLink i p = none) :
    ∃ s, t.inbound i wire now = .ok { t with stats := s, hashlist := t.recorded p } := by
  obtain ⟨s, hs'⟩ := handleLinkProofForward_of_provenLink_none (t := t.seen p) now hr
  exact ⟨s, by rw [inbound_of_not_hasSeen h hs, dispatch_eq, hk]; exact congrArg Except.ok hs'⟩

theorem inbound_linkProof_of_provenLink {e : LinkEntry} {f : IfaceId} (hk : p.handler = .linkProof)
    (hr : t.provenLink i p = some (e, f)) :
    ∃ s, t.inbound i wire now = .ok { t with
      stats := s
      hashlist := t.recorded p
      out := t.out ++ [.transmit .linkForward f p.wireBytes]
      linkTable := t.linkTable.getMut p.destinationHash fun e =>
        { e with validated := true, lastActivityMs := now } } := by
  obtain ⟨s, hs'⟩ := handleLinkProofForward_of_provenLink (t := t.seen p) now hr
  exact ⟨s, by rw [inbound_of_not_hasSeen h hs, dispatch_eq, hk]; exact congrArg Except.ok hs'⟩

theorem inbound_linkData_of_linkRoute {e : LinkEntry} {f : IfaceId} (hk : p.handler = .linkData)
    (hr : t.linkRoute i p = some (e, f)) :
    ∃ s, t.inbound i wire now = .ok { t with
      stats := s
      hashlist := t.recorded p
      out := t.out ++ [.transmit .linkForward f p.wireBytes]
      linkTable := t.relayedLinks p now } := by
  obtain ⟨s, hs'⟩ := handleLinkDataForward_of_linkRoute (t := t.seen p) now hr
  exact ⟨s, by rw [inbound_of_not_hasSeen h hs, dispatch_eq, hk]; exact congrArg Except.ok hs'⟩

end

/-! ### Ticks -/

/-- `t'` is `t` after callbacks, announces and interface work; nothing was relayed. -/
def Idles (t t' : Transport) : Prop :=
  ∃ s f n o, (∀ e ∈ o, e.forwards = false) ∧
    t' = { t with stats := s, iface := f, seedCalls := n, out := t.out ++ o }

namespace Idles
variable {t t' t'' : Transport} {o : List Event}

omit [CryptoLib]

theorem refl (t : Transport) : Idles t t := ⟨t.stats, t.iface, t.seedCalls, [], by simp, by simp⟩

theorem trans (h : Idles t t') (h' : Idles t' t'') : Idles t t'' := by
  obtain ⟨s, f, n, o, ho, rfl⟩ := h
  obtain ⟨s', f', n', o', ho', rfl⟩ := h'
  refine ⟨s', f', n', o ++ o', fun e he => ?_, by simp⟩
  exact (List.mem_append.mp he).elim (ho e) (ho' e)

theorem count (h : Idles t t') (c : Counter) : Idles t (t'.count c) := by
  obtain ⟨s, f, n, o, ho, rfl⟩ := h
  exact ⟨_, f, n, o, ho, rfl⟩

theorem foldl {ι : Type} (f : Transport → ι → Transport) (hf : ∀ t i, Idles t (f t i)) (l : List ι)
    (t : Transport) : Idles t (l.foldl f t) := by
  induction l generalizing t with
  | nil => exact refl t
  | cons i l ih => exact (hf t i).trans (ih _)

end Idles

omit [CryptoLib] in
theorem queueOn_idles (t : Transport) (entry : AnnounceEntry) (i : IfaceId) :
    Idles t (t.queueOn entry i) :=
  ⟨t.stats, _, t.seedCalls, [_], by simp [Event.forwards], rfl⟩

omit [CryptoLib] in
theorem driveAnnounceRebroadcast_idles (t : Transport) (now : Nat) :
    Idles { t with announceTable := (t.announceTable.popDue now).2 }
      (t.driveAnnounceRebroadcast now) :=
  Idles.foldl _ (fun t entry =>
    (Idles.foldl _ (fun t i => queueOn_idles t entry i) t.interfaces t).count _) _ _

omit [CryptoLib] in
theorem tickInterface_idles (t : Transport) (i : IfaceId) (now : Nat) :
    Idles t (t.tickInterface i now) := by
  refine ⟨t.stats, _, t.seedCalls, _, fun e he => ?_, rfl⟩
  obtain ⟨w, -, rfl⟩ := List.mem_map.mp he
  rfl

section
variable {I : Transport → Prop} {now : Nat} {t t' : Transport}

theorem driveSchedule_inv {sc sc' : ScheduledAnnounce} (h : driveSchedule now sc t = .ok (sc', t'))
    (h₀ : I t) (hemit : ∀ {d a : Bytes} {b : Bool} {u u' : Transport}, I u →
      u.emitAnnounceForLocal d a false none = .ok (b, u') → I u')
    (hcount : ∀ {u : Transport}, I u → I (u.count .scheduledAnnouncesEmitted)) : I t' := by
  unfold driveSchedule at h
  split at h
  · cases h
    exact h₀
  · obtain ⟨⟨emitted, t₁⟩, h₁, h⟩ := bind_eq_ok h
    have hmid := hemit h₀ h₁
    cases h
    cases emitted with
    | false => exact hmid
    | true => exact hcount hmid

/-- What the announces of the schedules keep, a round of them keeps. -/
theorem driveSchedules_inv {l l' : List ScheduledAnnounce}
    (h : driveSchedules now l t = .ok (l', t')) (h₀ : I t)
    (hemit : ∀ {d a : Bytes} {b : Bool} {u u' : Transport}, I u →
      u.emitAnnounceForLocal d a false none = .ok (b, u') → I u')
    (hcount : ∀ {u : Transport}, I u → I (u.count .scheduledAnnouncesEmitted)) : I t' := by
  induction l generalizing t l' with
  | nil =>
    cases h
    exact h₀
  | cons sc l ih =>
    obtain ⟨⟨sc', t₁⟩, h₁, h⟩ := bind_eq_ok h
    obtain ⟨⟨l₁, t₂⟩, h₂, h⟩ := bind_eq_ok h
    cases h
    exact ih h₂ (driveSchedule_inv h₁ h₀ hemit hcount)

end

theorem driveSchedules_idles {now : Nat} {l l' : List ScheduledAnnounce} {t t' : Transport}
    (h : driveSchedules now l t = .ok (l', t')) : Idles t t' := by
  refine driveSchedules_inv (I := Idles t) h (.refl t) ?_ fun hi => hi.count _
  intro d a b u u' hi he
  obtain ⟨n, o, ho, s, rfl⟩ := emitAnnounceForLocal_frame he
  exact hi.trans ⟨s, u.iface, n, o, fun e he => Event.forwards_of_emits (ho e he), rfl⟩

theorem tick_frame {t t' : Transport} {now : Nat} (h : t.tick now = .ok t') :
    ∃ sch s f n o, (∀ e ∈ o, e.forwards = false) ∧ t' = { t with
      announceTable := (t.announceTable.popDue now).2
      scheduledAnnounces := sch
      stats := s
      iface := f
      seedCalls := n
      out := t.out ++ o
      paths := (t.paths.evictExpired now).2
      reverseTable := (t.reverseTable.evictAged now).2
      linkTable := ((t.linkTable.evictUnproven now).2.evictStale now linkStaleThresholdMs).2
      hashlist := t.hashlist.purgeIfOverCap.2
      prTags := t.prTags.purgeIfOverCap.2 } := by
  unfold tick at h
  obtain ⟨t₁, h₁, h⟩ := bind_eq_ok h
  obtain ⟨⟨sch, t₂⟩, h₂, h₁⟩ := bind_eq_ok h₁
  cases h₁
  have hr := (t.driveAnnounceRebroadcast_idles now).trans (driveSchedules_idles h₂)
  have hi := Idles.foldl (fun t i => tickInterface t i now)
    (fun t i => tickInterface_idles t i now) t₂.interfaces { t₂ with scheduledAnnounces := sch }
  obtain ⟨s₁, f₁, n₁, o₁, ho₁, rfl⟩ := hr
  obtain ⟨s, f, n, o, ho, hi⟩ := hi
  cases h
  refine ⟨sch, s, f, n, o₁ ++ o, fun e he => (List.mem_append.mp he).elim (ho₁ e) (ho e), ?_⟩
  rw [hi]
  simp

end Transport
end Reticulum
