import Reticulum.Lib.Line
import Reticulum.Rns.Transport.Routes

/-!
# Lines of relays

A `Relay` is a node of a line, with its two interfaces and the time at which it takes in its next
packet. What one relay puts on an interface is what its neighbour on that side takes in.
-/

namespace Reticulum

namespace Packet

/-- The packet as the next node takes it in. -/
def bumped (p : Packet) : Packet :=
  ofFields p.flags (if p.hops < 255 then p.hops + 1 else p.hops) p.transportId p.destinationHash
    p.context p.data p.ifac_clear p.transportId_length p.destinationHash_length

@[simp] theorem bumped_destinationHash (p : Packet) :
    p.bumped.destinationHash = p.destinationHash := rfl

@[simp] theorem bumped_context (p : Packet) : p.bumped.context = p.context := rfl

@[simp] theorem bumped_hashablePart (p : Packet) : p.bumped.hashablePart = p.hashablePart :=
  hashablePart_eq_iff.mpr ⟨rfl, rfl, rfl, rfl⟩

theorem wireBytes_injective {p q : Packet} (h : p.wireBytes = q.wireBytes) : p = q :=
  Except.ok.inj ((fromWireBytes_wireBytes p).symm.trans (h ▸ fromWireBytes_wireBytes q))

end Packet

/-- The packet hash tells the packets of `ps` apart. -/
def CollisionFree [CryptoLib] (ps : List Packet) : Prop :=
  ∀ p ∈ ps, ∀ q ∈ ps, dedupHash p = dedupHash q → p.hashablePart = q.hashablePart

theorem collisionFree_of_nodup [CryptoLib] {ps : List Packet} (h : (ps.map dedupHash).Nodup) :
    CollisionFree ps := by
  intro p hp q hq heq
  rw [List.inj_on_of_nodup_map h hp hq heq]

theorem CollisionFree.dedupHash_ne [CryptoLib] {ps : List Packet} {p q : Packet}
    (h : CollisionFree ps) (hp : p ∈ ps) (hq : q ∈ ps) (ht : p.packetType ≠ q.packetType) :
    dedupHash p ≠ dedupHash q := by
  intro heq
  have hlow := (Packet.hashablePart_eq_iff.mp (h p hp q hq heq)).1
  exact ht (packetTypeOf_congr hlow)

theorem bumpHops_wireBytes (p : Packet) : bumpHops p.wireBytes = p.bumped.wireBytes := by
  have h₁ : p.wireBytes.byteAt 1 = p.hops := by rw [p.wireBytes_eq]; rfl
  have hlen : p.wireBytes.length ≥ 2 := by have := p.length_wireBytes; omega
  unfold bumpHops
  rw [h₁, p.bumped.wireBytes_eq]
  by_cases hlt : p.hops < 255
  · rw [if_pos ⟨hlen, hlt⟩, p.wireBytes_eq]
    simp [Packet.bumped, Packet.ofFields, hlt]
  · rw [if_neg (fun h => hlt h.2), p.wireBytes_eq]
    simp [Packet.bumped, Packet.ofFields, hlt]

/-- A packet sent is taken in by the neighbour. -/
theorem arriving_wireBytes (p : Packet) : arriving p.wireBytes = some p.bumped := by
  have h₀ : p.wireBytes.byteAt 0 = p.flags := by rw [p.wireBytes_eq]; rfl
  unfold arriving
  rw [if_neg (by simp [ifacFlagged, h₀, p.ifac_clear]), bumpHops_wireBytes,
    Packet.fromWireBytes_wireBytes]
  rfl

/-- What is taken in was a packet already, with one hop less. -/
theorem exists_of_arriving {wire : Bytes} {p : Packet} (h : arriving wire = some p) :
    ∃ r : Packet, r.wireBytes = wire ∧ p = r.bumped := by
  have hwire := arriving_hops h
  rw [p.wireBytes_eq] at hwire
  rcases wire with - | ⟨a, - | ⟨b, rest⟩⟩
  · cases hwire
  · cases hwire
  have hbump : ∃ b', bumpHops (a :: b :: rest) = a :: b' :: rest := by
    unfold bumpHops
    split
    · exact ⟨_, rfl⟩
    · exact ⟨b, rfl⟩
  obtain ⟨b', hb'⟩ := hbump
  rw [hb'] at hwire
  obtain ⟨rfl, htail⟩ := List.cons.inj hwire
  obtain ⟨-, rfl⟩ := List.cons.inj htail
  let r : Packet := .ofFields p.flags b p.transportId p.destinationHash p.context p.data
    p.ifac_clear p.transportId_length p.destinationHash_length
  have harr : arriving r.wireBytes = some r.bumped := arriving_wireBytes r
  exact ⟨r, rfl, Option.some.inj (h.symm.trans harr)⟩

/-- A relay of a line, and the time on its clock when the next packet comes in. -/
structure Relay where
  left : IfaceId
  right : IfaceId
  left_ne_right : left ≠ right
  node : Transport
  now : Nat

namespace Relay

def id (n : Relay) : Bytes := n.node.localIdentity.identityHash

variable [CryptoLib]
open Transport

/-- The relay takes in `w` on `i` and puts `w'`, and nothing else, on the air, on `o`. -/
def Forwards (n : Relay) (i o : IfaceId) (w : Bytes) (n' : Relay) (w' : Bytes) : Prop :=
  ∃ t, n.node.step (.inbound i w n.now) = .ok t ∧ t.transmissions = [(o, w')] ∧
    n' = { n with node := t }

/-- From the originator's side to the destination's. -/
def Right (n : Relay) (w : Bytes) (n' : Relay) (w' : Bytes) : Prop :=
  n.Forwards n.left n.right w n' w'

/-- From the destination's side to the originator's. -/
def Left (n : Relay) (w : Bytes) (n' : Relay) (w' : Bytes) : Prop :=
  n.Forwards n.right n.left w n' w'

theorem Forwards.det {n n₁ n₂ : Relay} {i o : IfaceId} {w w₁ w₂ : Bytes}
    (h₁ : n.Forwards i o w n₁ w₁) (h₂ : n.Forwards i o w n₂ w₂) : n₁ = n₂ ∧ w₁ = w₂ := by
  obtain ⟨t₁, hs₁, ho₁, rfl⟩ := h₁
  obtain ⟨t₂, hs₂, ho₂, rfl⟩ := h₂
  cases hs₁.symm.trans hs₂
  cases ho₁.symm.trans ho₂
  exact ⟨rfl, rfl⟩

theorem not_forwards {n n' : Relay} {i o : IfaceId} {w w' : Bytes} {t : Transport}
    (h : n.node.step (.inbound i w n.now) = .ok t) (hout : t.transmissions = []) :
    ¬ n.Forwards i o w n' w' := by
  rintro ⟨t', h', hout', -⟩
  cases h.symm.trans h'
  rw [hout] at hout'
  cases hout'

theorem Forwards.unseen {n n' : Relay} {i o : IfaceId} {p : Packet} {w : Bytes}
    (h : n.Forwards i o p.wireBytes n' w) : n.node.hasSeen p = false := by
  obtain ⟨t, hs, ho, -⟩ := h
  by_contra hseen
  have hseen : n.node.hasSeen p.bumped = true :=
    (hasSeen_congr n.node p.bumped_hashablePart).trans (eq_true_of_ne_false hseen)
  obtain ⟨s, hstep⟩ := step_of_hasSeen (i := i) n.now (arriving_wireBytes p) hseen
  cases hstep.symm.trans hs
  cases ho

/-- The relay ticks, at times less than `life` after its last packet, until its next packet. -/
def Waits (life : Nat) (n n' : Relay) : Prop :=
  ∃ rs t now, Run Steps n.node rs t ∧ (∀ r ∈ rs, ∃ τ < n.now + life, r.act = .tick τ) ∧
    n' = { n with node := t, now := now }

end Relay

namespace Transport
variable [CryptoLib] {t t' : Transport} {now : Nat}

/-! ### What a tick leaves in place -/

theorem tick_get_path {d : Bytes} {e : PathEntry} (h : t.step (.tick now) = .ok t')
    (he : t.paths.get d = some e) (hx : now < e.expiresMs) : t'.paths.get d = some e := by
  cases step_path h d with
  | keep hk => exact hk.trans he
  | expire he' hx' _ =>
    cases he.symm.trans he'
    omega

theorem tick_get_reverse {x : Bytes} {e : ReverseEntry} (h : t.step (.tick now) = .ok t')
    (he : t.reverseTable.get x = some e)
    (hx : now < e.timestampMs + ReverseTable.reverseTimeoutMs) :
    t'.reverseTable.get x = some e := by
  obtain ⟨sch, s, f, n, o, -, rfl⟩ := tick_frame h
  rw [ReverseTable.get_evictAged, he, Option.filter_some, if_pos]
  simpa using hx

theorem tick_hasSeen {p : Packet} (h : t.step (.tick now) = .ok t') (hs : t.hasSeen p = false) :
    t'.hasSeen p = false := by
  obtain ⟨sch, s, f, n, o, -, rfl⟩ := tick_frame h
  by_contra hseen
  have hold := PacketHashList.contains_of_purge (eq_true_of_ne_false hseen)
  exact Bool.false_ne_true (hs.symm.trans hold)

theorem tick_publicKeyFor (h : t.step (.tick now) = .ok t') (d : Bytes) :
    t'.publicKeyFor d = t.publicKeyFor d := by
  obtain ⟨sch, s, f, n, o, -, rfl⟩ := tick_frame h
  rfl

end Transport

namespace Relay
variable [CryptoLib] {life : Nat} {n n' : Relay}

theorem Waits.keeps {I : Transport → Prop} (h : n.Waits life n') (hI : I n.node)
    (hstep : ∀ t τ t', I t → t.step (.tick τ) = .ok t' → τ < n.now + life → I t') :
    I n'.node := by
  obtain ⟨rs, t, now, hrun, hticks, rfl⟩ := h
  refine hrun.inv_of hI hticks fun s a s' hi hs ⟨τ, hτ, ha⟩ => ?_
  rw [show a = .tick τ from ha] at hs
  exact hstep s τ s' hi hs hτ

theorem Waits.left (h : n.Waits life n') : n'.left = n.left := by
  obtain ⟨rs, t, now, -, -, rfl⟩ := h
  rfl

theorem Waits.right (h : n.Waits life n') : n'.right = n.right := by
  obtain ⟨rs, t, now, -, -, rfl⟩ := h
  rfl

theorem Waits.id (h : n.Waits life n') : n'.id = n.id :=
  h.keeps (I := fun t => t.localIdentity.identityHash = n.id) rfl fun _ _ _ hi hs _ => by
    rw [Transport.step_localIdentity hs, hi]

theorem Waits.hasSeen {p : Packet} (h : n.Waits life n') (hs : n.node.hasSeen p = false) :
    n'.node.hasSeen p = false :=
  h.keeps hs fun _ _ _ hi ht _ => Transport.tick_hasSeen ht hi

theorem Waits.path {d : Bytes} {e : PathEntry} (h : n.Waits life n')
    (he : n.node.paths.get d = some e) (hx : n.now + life ≤ e.expiresMs) :
    n'.node.paths.get d = some e :=
  h.keeps he fun _ _ _ hi ht hτ => Transport.tick_get_path ht hi (hτ.trans_le hx)

theorem Waits.reverse {x : Bytes} {e : ReverseEntry} (h : n.Waits life n')
    (he : n.node.reverseTable.get x = some e)
    (hx : n.now + life ≤ e.timestampMs + ReverseTable.reverseTimeoutMs) :
    n'.node.reverseTable.get x = some e :=
  h.keeps he fun _ _ _ hi ht hτ => Transport.tick_get_reverse ht hi (hτ.trans_le hx)

theorem Waits.publicKeyFor (h : n.Waits life n') (d : Bytes) :
    n'.node.publicKeyFor d = n.node.publicKeyFor d :=
  h.keeps (I := fun t => t.publicKeyFor d = n.node.publicKeyFor d) rfl fun _ _ _ hi ht _ =>
    (Transport.tick_publicKeyFor ht d).trans hi

end Relay

/-- The relay holds a path for `d` to the right, to the relay `next`, or straight to `d`. -/
def Relay.LeadsTo (d : Bytes) (next : Option Bytes) (n : Relay) : Prop :=
  ∃ e, n.node.paths.get d = some e ∧ e.receivingInterface = some n.right ∧
    (next = none → e.hops = 1) ∧ ∀ id, next = some id → e.hops > 1 ∧ e.nextHop = id

def headId (ns : List Relay) : Option Bytes := ns.head?.map Relay.id

/-- The path for `d` leads from each relay to the next, and from the last one straight to `d`. -/
def PathsLead (d : Bytes) : List Relay → Prop
  | [] => True
  | n :: ns => n.LeadsTo d (headId ns) ∧ PathsLead d ns

theorem length_headId {ns : List Relay} {id : Bytes} (h : headId ns = some id) :
    id.length = identityHashLen := by
  obtain ⟨m, -, rfl⟩ := Option.map_eq_some_iff.mp h
  exact m.node.localIdentity.identityHash_length

theorem PathsLead.waits [CryptoLib] {d : Bytes} {life : Nat} {ns ns' : List Relay}
    (h : PathsLead d ns) (hw : List.Forall₂ (Relay.Waits life) ns ns')
    (hx : ∀ n ∈ ns, ∀ e, n.node.paths.get d = some e → n.now + life ≤ e.expiresMs) :
    PathsLead d ns' := by
  induction hw with
  | nil => trivial
  | @cons n n' ns ns' hn hns ih =>
    obtain ⟨⟨e, he, ho, hlast, hnext⟩, hlead⟩ := h
    have hids : headId ns' = headId ns := by
      cases hns with
      | nil => rfl
      | cons hm _ => exact congrArg some hm.id
    refine ⟨⟨e, hn.path he (hx n (List.mem_cons_self ..) e he), hn.right ▸ ho, ?_, ?_⟩,
      ih hlead fun m hm => hx m (List.mem_cons_of_mem _ hm)⟩
    · rw [hids]
      exact hlast
    · rw [hids]
      exact hnext

/-- `q` is addressed to the first relay, or it is a HEADER_1 packet for the destination itself. -/
def AddressedTo (next : Option Bytes) (q : Packet) : Prop :=
  (next = none → q.headerType = .header1) ∧
    ∀ id, next = some id → q.headerType = .header2 ∧ q.transportId = id

theorem addressedTo_some {id : Bytes} {q : Packet} :
    AddressedTo (some id) q ↔ q.headerType = .header2 ∧ q.transportId = id := by
  simp [AddressedTo]

/-- A packet for `d` addressed to a relay goes on to the next relay, addressed to it, or to `d` as
HEADER_1. -/
theorem Relay.LeadsTo.route {n : Relay} {d : Bytes} {ns : List Relay}
    (h : n.LeadsTo d (headId ns)) {p : Packet} (hd : p.destinationHash = d)
    (hp : AddressedTo (some n.id) p) :
    ∃ e q, n.node.route p = some (e, n.right, q) ∧ q.hashablePart = p.hashablePart ∧
      AddressedTo (headId ns) q := by
  obtain ⟨e, he, ho, hlast, hnext⟩ := h
  obtain ⟨h2, hid⟩ := addressedTo_some.mp hp
  have hhops : 1 ≤ e.hops ∧ e.Usable := by
    cases hm : headId ns with
    | none => exact ⟨UInt8.le_of_eq (hlast hm).symm, .inl (hlast hm)⟩
    | some id =>
      obtain ⟨hgt, hid⟩ := hnext id hm
      exact ⟨UInt8.le_of_lt hgt, .inr (hid ▸ length_headId hm)⟩
  obtain ⟨q, hr⟩ := relayOf_of_usable h2 ho hhops.1 hhops.2
  refine ⟨e, q, ?_, relayOf_hashablePart hr, fun hnone => (relayOf_relayedBy hr).2 (hlast hnone),
    fun id hm => ?_⟩
  · rw [Transport.route, dif_pos ⟨h2, hid⟩, hd, he, Option.bind_some, hr]
    rfl
  · obtain ⟨hgt, rfl⟩ := hnext id hm
    exact (relayOf_relayedBy hr).1 hgt

end Reticulum
