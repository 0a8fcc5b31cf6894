import Reticulum.Rns.Announced
import Reticulum.Rns.Transport.Line

/-!
# How an announce travels

An accepted announce is kept in the announce table; the next tick queues it on every interface, and
the interface's own tick drains it when its airtime allows. What a node puts on the air for a
destination is therefore the announce it took in, as HEADER_2 under the node's own transport id.
-/

namespace Reticulum

namespace Interface

theorem drain_subset {n now : Nat} {i i' : Interface} {wires : List Bytes}
    (h : drain now n i = (i', wires)) :
    (∀ w ∈ wires, ∃ e ∈ i.queue, e.wire = w) ∧ ∀ e ∈ i'.queue, e ∈ i.queue := by
  have hrounds := rounds_of_drain h
  clear h
  induction hrounds with
  | done => exact ⟨by simp, fun e he => he⟩
  | empty hq => exact ⟨by simp, fun e he => he⟩
  | full hq hfull => exact ⟨by simp, fun e he => he⟩
  | @sent n i i' pick rest wires hq hroom next ih =>
    obtain ⟨hw, hkeep⟩ := ih
    have hperm := takeMin_perm hq
    refine ⟨fun w hmem => ?_, fun e he => hperm.mem_iff.mpr (List.mem_cons_of_mem _ (hkeep e he))⟩
    rcases List.mem_cons.mp hmem with rfl | hmem
    · exact ⟨pick, hperm.mem_iff.mpr (List.mem_cons_self ..), rfl⟩
    · obtain ⟨e, he, rfl⟩ := hw w hmem
      exact ⟨e, hperm.mem_iff.mpr (List.mem_cons_of_mem _ he), rfl⟩

theorem tick_subset (i : Interface) (now : Nat) :
    (∀ w ∈ (i.tick now).2, ∃ e ∈ i.queue, e.wire = w) ∧ ∀ e ∈ (i.tick now).1.queue, e ∈ i.queue :=
  drain_subset rfl

end Interface

namespace Transport

/-- Every announce queued on an interface, and every one drained by the current call, is in `P`. -/
structure QueuesOnly (P : Bytes → Prop) (t : Transport) : Prop where
  queue : ∀ i, ∀ e ∈ (t.iface i).queue, P e.wire
  drained : ∀ i w, .drained i w ∈ t.out → P w

namespace QueuesOnly
variable {P : Bytes → Prop} {t t' : Transport}

theorem adds {o : List Event} (h : QueuesOnly P t) (ho : ∀ e ∈ o, e.emits = true)
    (ha : Adds t o t') : QueuesOnly P t' := by
  obtain ⟨s, rfl⟩ := ha
  refine ⟨h.queue, fun i w hw => ?_⟩
  rcases List.mem_append.mp hw with hw | hw
  · exact h.drained i w hw
  · cases ho _ hw

theorem queueOn {entry : AnnounceEntry} (h : QueuesOnly P t) (he : P entry.announceWire)
    (i : IfaceId) : QueuesOnly P (t.queueOn entry i) := by
  refine ⟨fun j e hmem => ?_, fun j w hw => ?_⟩
  · simp only [Transport.queueOn, emit, Interface.queueAnnounce] at hmem
    split at hmem
    · rename_i hj
      subst hj
      split at hmem
      · exact h.queue _ e hmem
      · rcases List.mem_append.mp hmem with hmem | hmem
        · exact h.queue _ e hmem
        · rw [List.mem_singleton.mp hmem]
          exact he
    · exact h.queue j e hmem
  · rcases List.mem_append.mp hw with hw | hw
    · exact h.drained j w hw
    · simp at hw

theorem driveAnnounceRebroadcast (h : QueuesOnly P t)
    (he : ∀ e ∈ t.announceTable.entries.values, P e.announceWire) (now : Nat) :
    QueuesOnly P (t.driveAnnounceRebroadcast now) := by
  refine List.foldlRecOn (motive := QueuesOnly P) _ _ ⟨h.queue, h.drained⟩ fun t ht e hmem => ?_
  have hwire := he e (List.mem_filter.mp hmem).1
  have hall := List.foldlRecOn (motive := QueuesOnly P) t.interfaces
    (fun t i => t.queueOn e i) ht fun t ht i _ => ht.queueOn hwire i
  exact ⟨hall.queue, hall.drained⟩

theorem tickInterface (h : QueuesOnly P t) (i : IfaceId) (now : Nat) :
    QueuesOnly P (t.tickInterface i now) := by
  obtain ⟨hw, hq⟩ := (t.iface i).tick_subset now
  refine ⟨fun j e hmem => ?_, fun j w hmem => ?_⟩
  · simp only [Transport.tickInterface] at hmem
    split at hmem
    · subst j
      exact h.queue _ e (hq e hmem)
    · exact h.queue j e hmem
  · rcases List.mem_append.mp hmem with hmem | hmem
    · exact h.drained j w hmem
    · obtain ⟨w', hw', heq⟩ := List.mem_map.mp hmem
      cases heq
      obtain ⟨e, he, rfl⟩ := hw w hw'
      exact h.queue _ e he

variable [CryptoLib]

theorem driveSchedules {now : Nat} {l l' : List ScheduledAnnounce} (h : QueuesOnly P t)
    (hs : driveSchedules now l t = .ok (l', t')) : QueuesOnly P t' := by
  refine driveSchedules_inv (I := QueuesOnly P) hs h ?_ fun hu => ⟨hu.queue, hu.drained⟩
  intro d a b u u' hu he
  obtain ⟨n, o, ho, hadds⟩ := emitAnnounceForLocal_frame he
  exact adds (t := { u with seedCalls := n }) ⟨hu.queue, hu.drained⟩ ho hadds

theorem tick {now : Nat} (hq : ∀ i, ∀ e ∈ (t.iface i).queue, P e.wire)
    (he : ∀ e ∈ t.announceTable.entries.values, P e.announceWire)
    (h : t.step (.tick now) = .ok t') : QueuesOnly P t' := by
  obtain ⟨t₁, h₁, h⟩ := bind_eq_ok h
  obtain ⟨⟨sch, t₂⟩, h₂, h₁⟩ := bind_eq_ok h₁
  cases h₁
  have hstart : QueuesOnly P { t with out := [] } := ⟨hq, by simp⟩
  have hsched := (hstart.driveAnnounceRebroadcast he now).driveSchedules h₂
  have hall := List.foldlRecOn (motive := QueuesOnly P) t₂.interfaces
    (fun t i => Transport.tickInterface t i now)
    (b := { t₂ with scheduledAnnounces := sch }) ⟨hsched.queue, hsched.drained⟩
    fun t ht i _ => ht.tickInterface i now
  cases h
  exact ⟨hall.queue, hall.drained⟩

end QueuesOnly
end Transport

/-! ### The announce on its way -/

theorem Packet.header2_of_ne (p : Packet) (h : p.headerType ≠ .header1) :
    p.headerType = .header2 := by
  cases ht : p.headerType with
  | header1 => exact absurd ht h
  | header2 => rfl

theorem one_le_bumped_hops (p : Packet) : 1 ≤ p.bumped.hops :=
  one_le_hops (arriving_wireBytes p)

theorem bumped_hops_zero {p : Packet} (h : p.hops = 0) : p.bumped.hops = 1 := by
  change (if p.hops < 255 then p.hops + 1 else p.hops) = 1
  rw [h]
  rfl

theorem bumped_hops_gt {p : Packet} (h : 1 ≤ p.hops) : p.bumped.hops > 1 := by
  change (if p.hops < 255 then p.hops + 1 else p.hops) > 1
  rw [UInt8.le_iff_toNat_le] at h
  split
  · rename_i hlt
    rw [UInt8.lt_iff_toNat_lt] at hlt
    rw [gt_iff_lt, UInt8.lt_iff_toNat_lt, UInt8.toNat_add]
    simp only [UInt8.toNat_ofNat] at h hlt ⊢
    omega
  · rename_i hge
    rw [UInt8.lt_iff_toNat_lt] at hge
    rw [gt_iff_lt, UInt8.lt_iff_toNat_lt]
    simp only [UInt8.toNat_ofNat] at h hge ⊢
    omega

/-- `q` is `announce` as the relay with the transport id `next` passes it on, or as the destination
itself sends it. -/
structure Offers (announce : Packet) (next : Option Bytes) (q : Packet) : Prop where
  hashablePart : q.hashablePart = announce.hashablePart
  contextFlag : q.contextFlag = announce.contextFlag
  origin : next = none → q.headerType = .header1 ∧ q.hops = 0
  relay : ∀ id, next = some id → q.headerType = .header2 ∧ q.transportId = id ∧ 1 ≤ q.hops

theorem reissued_hashablePart (id : Identity) (p : Packet) :
    (reissued id p).hashablePart = p.hashablePart := by
  unfold reissued
  split
  · exact Packet.hashablePart_eq_iff.mpr ⟨low_toHeader2Flags _, rfl, rfl, rfl⟩
  · exact Packet.hashablePart_eq_iff.mpr ⟨rfl, rfl, rfl, rfl⟩

/-- What a relay makes of an announce is what the next one is offered. -/
theorem Offers.reissued {announce q : Packet} {next : Option Bytes} (h : Offers announce next q)
    (id : Identity) : Offers announce (some id.identityHash) (reissued id q.bumped) := by
  constructor
  · rw [reissued_hashablePart, Packet.bumped_hashablePart, h.hashablePart]
  · rw [← h.contextFlag]
    unfold Reticulum.reissued
    split
    · exact contextFlagOf_toHeader2Flags _
    · rfl
  · intro hnone
    cases hnone
  · rintro _ ⟨⟩
    have hhops := one_le_bumped_hops q
    unfold Reticulum.reissued
    split
    · exact ⟨headerTypeOf_toHeader2Flags _, rfl, hhops⟩
    · rename_i h1
      exact ⟨q.bumped.header2_of_ne h1, rfl, hhops⟩

def CarriesFor (d w : Bytes) : Prop := ∃ q : Packet, q.wireBytes = w ∧ q.destinationHash = d

section
variable [CryptoLib]

/-- The fields no relay rewrites, and the ratchet flag, decide what an announce is validated as. -/
theorem validateAnnounce_congr {p q : Packet} (h : p.hashablePart = q.hashablePart)
    (hf : p.contextFlag = q.contextFlag) :
    Identity.validateAnnounce p = Identity.validateAnnounce q := by
  obtain ⟨hlow, hd, hc, hb⟩ := Packet.hashablePart_eq_iff.mp h
  unfold Identity.validateAnnounce
  rw [show p.packetType = q.packetType from packetTypeOf_congr hlow,
    show p.destinationType = q.destinationType from destinationTypeOf_congr hlow, hd, hc, hb, hf]

theorem validateAnnounce_bumped (p : Packet) :
    Identity.validateAnnounce p.bumped = Identity.validateAnnounce p :=
  validateAnnounce_congr (Packet.bumped_hashablePart p) rfl

/-- The time for which a path is kept after its announce. -/
def pathLifeMs : Nat := 60 * 60 * 1000

namespace Transport
variable {t t' : Transport} {i : IfaceId} {wire : Bytes} {now : Nat} {p : Packet}
  {va : ValidatedAnnounce}

theorem accepts_of_validateAnnounce (hv : Identity.validateAnnounce p = some va)
    (hknown : ∀ k, t.publicKeyFor va.destinationHash = some k → k = va.publicKey)
    (hother : identityHashOf va.publicKey ≠ t.localIdentity.identityHash)
    (hwelcome : t.isBlackholed (identityHashOf va.publicKey) = false) : t.accepts p = some va := by
  have hsame : (t.publicKeyFor va.destinationHash).any (· ≠ va.publicKey) = false := by
    cases hk : t.publicKeyFor va.destinationHash with
    | none => rfl
    | some k => simp [hknown k hk]
  rw [accepts, hv, Option.filter_some, if_pos]
  rw [hsame, hwelcome]
  exact decide_eq_true ⟨hother, rfl, rfl⟩

theorem step_announce (h : t.step (.inbound i wire now) = .ok t') (hw : arriving wire = some p)
    (hs : t.hasSeen p = false) (hk : p.handler = .announce) (ha : t.accepts p = some va)
    (hnew : t.paths.get va.destinationHash = none) :
    t'.localIdentity = t.localIdentity ∧ t'.hashlist = t.recorded p ∧ t'.iface = t.iface ∧
      t'.knownDestinations =
        t.knownDestinations.insert (keyOf va.destinationHash) va.publicKey ∧
      (∃ blobs, t'.paths.get va.destinationHash =
        some { t.learnedPath va i p now with randomBlobs := blobs }) ∧
      ∀ e ∈ t'.announceTable.entries.values,
        e ∈ t.announceTable.entries.values ∨ e = t.queuedAnnounce va i p now := by
  rw [step_inbound_announce hw hs hk] at h
  obtain ⟨s, -, heq⟩ := handleAnnounce_takeIn (t := seen { t with out := [] } p) i now ha
  cases heq.symm.trans h
  refine ⟨rfl, rfl, rfl, rfl, ?_, fun e he => ?_⟩
  · refine noteRandomBlob_get _ ?_
    rw [learnedPaths]
    change (if replacesPath (t.paths.get va.destinationHash) p.hops va.randomHash now = true
      then t.paths.put va.destinationHash (t.learnedPath va i p now) else t.paths).get
      va.destinationHash = _
    rw [hnew, if_pos (by rfl), PathTable.get_put, if_pos rfl]
  · simp only at he
    split at he
    · obtain ⟨k, hk'⟩ := (Dict.mem_values_iff _ _).mp he
      simp only [AnnounceTable.put, Dict.lookup_insert_eq] at hk'
      split at hk'
      · exact .inr (Option.some.inj hk').symm
      · exact .inl ((Dict.mem_values_iff _ _).mpr ⟨k, hk'⟩)
    · exact .inl he

end Transport

namespace Relay
open Transport

/-- The relay has had nothing to do with the destination `d` of the
key `pub`, and would take its `announce` in. -/
structure Unaware (d pub : Bytes) (announce : Packet) (n : Relay) : Prop where
  path : n.node.paths.get d = none
  known : ∀ k, n.node.publicKeyFor d = some k → k = pub
  other : identityHashOf pub ≠ n.id
  welcome : n.node.isBlackholed (identityHashOf pub) = false
  waiting : ∀ e ∈ n.node.announceTable.entries.values, ¬ CarriesFor d e.announceWire
  queued : ∀ i, ∀ e ∈ (n.node.iface i).queue, ¬ CarriesFor d e.wire
  unseen : n.node.hasSeen announce = false

/-- The relay takes `w` in from the right, and ticks. -/
def Hears (n : Relay) (w : Bytes) (n' : Relay) : Prop :=
  ∃ t τ t', n.node.step (.inbound n.right w n.now) = .ok t ∧ τ < n.now + pathLifeMs ∧
    t.step (.tick τ) = .ok t' ∧ n' = { n with node := t' }

/-- The relay takes `w` in from the right and in the tick sends an announce for `d` to the left. -/
def PassesOn (d : Bytes) (n : Relay) (w : Bytes) (n' : Relay) (w' : Bytes) : Prop :=
  n.Hears w n' ∧ .drained n.left w' ∈ n'.node.out ∧ CarriesFor d w'

/-- What a relay is after the announce: nothing else has changed that matters on the line. -/
structure Learned (d pub : Bytes) (announce : Packet) (n n' : Relay) : Prop where
  left : n'.left = n.left
  right : n'.right = n.right
  now : n'.now = n.now
  id : n'.id = n.id
  expires : ∀ e, n'.node.paths.get d = some e → e.expiresMs = n.now + pathLifeMs
  known : n'.node.publicKeyFor d = some pub
  unseen : ∀ p, n.node.hasSeen p = false → dedupHash p ≠ dedupHash announce →
    n'.node.hasSeen p = false

theorem Unaware.accepts {va : ValidatedAnnounce} {announce q : Packet} {n : Relay}
    {next : Option Bytes} (hn : n.Unaware va.destinationHash va.publicKey announce)
    (hq : Offers announce next q) (hv : Identity.validateAnnounce announce = some va) :
    n.node.accepts q.bumped = some va := by
  have hva : Identity.validateAnnounce q.bumped = some va := by
    rw [validateAnnounce_congr ((Packet.bumped_hashablePart q).trans hq.hashablePart)
      hq.contextFlag, hv]
  exact accepts_of_validateAnnounce hva hn.known hn.other hn.welcome

/-- A relay that hears the announce learns a path to where it came from, and all it may now send for
the destination is its own copy. -/
theorem Unaware.hears {va : ValidatedAnnounce} {announce q : Packet} {n n' : Relay}
    {next : Option Bytes} (hn : n.Unaware va.destinationHash va.publicKey announce)
    (hq : Offers announce next q) (hv : Identity.validateAnnounce announce = some va)
    (ht : announce.packetType = .announce)
    (h : n.Hears q.wireBytes n') :
    n.Learned va.destinationHash va.publicKey announce n' ∧ n'.LeadsTo va.destinationHash next ∧
      ∀ i w, .drained i w ∈ n'.node.out → CarriesFor va.destinationHash w →
        w = (reissued n.node.localIdentity q.bumped).wireBytes := by
  obtain ⟨t, τ, t', hin, hτ, htick, rfl⟩ := h
  have hpart := (Packet.bumped_hashablePart q).trans hq.hashablePart
  have hk : q.bumped.handler = .announce := Packet.handler_eq_announce.mpr
    ((packetTypeOf_congr (Packet.hashablePart_eq_iff.mp hpart).1).trans ht)
  obtain ⟨hid, hlist, hif, hknown, ⟨blobs, hpath⟩, htable⟩ := step_announce hin
    (arriving_wireBytes q) ((hasSeen_congr n.node hpart).trans hn.unseen) hk (hn.accepts hq hv)
    hn.path
  have hpath' := tick_get_path htick hpath hτ
  refine ⟨⟨rfl, rfl, rfl, ?_, fun e he => ?_, ?_, fun p hp hne => tick_hasSeen htick ?_⟩,
    ⟨_, hpath', rfl, fun hnone => ?_, fun id hsome => ?_⟩, fun i w hw hcarries => ?_⟩
  · rw [Relay.id, Relay.id, step_localIdentity htick, hid]
  · cases hpath'.symm.trans he
    rfl
  · rw [tick_publicKeyFor htick, Transport.publicKeyFor, hknown, Dict.lookup_insert_eq, if_pos rfl]
  · rw [hasSeen, hlist, contains_recorded, hp]
    simpa [dedupHash, hpart] using hne
  · exact bumped_hops_zero (hq.origin hnone).2
  · obtain ⟨h2, htid, hhops⟩ := hq.relay id hsome
    refine ⟨bumped_hops_gt hhops, ?_⟩
    change learnedNextHop q.bumped = id
    rw [learnedNextHop, if_pos (show q.bumped.headerType = .header2 from h2)]
    exact htid
  · have hqueues := QueuesOnly.tick (P := fun w => CarriesFor va.destinationHash w →
      w = (reissued n.node.localIdentity q.bumped).wireBytes) (t := t)
      (fun i e he hc => absurd hc (hn.queued i e (hif ▸ he)))
      (fun e he hc => by
        rcases htable e he with hold | rfl
        · exact absurd hc (hn.waiting e hold)
        · rfl) htick
    exact hqueues.drained i w hw hcarries

/-- An announce that has come down a line has left a path at every relay, and what the next relay is
offered is the head's copy. -/
theorem learned_of_leftward {va : ValidatedAnnounce} {announce : Packet} {ns ns' : List Relay}
    {w : Bytes} (hv : Identity.validateAnnounce announce = some va)
    (ht : announce.packetType = .announce)
    (horigin : announce.headerType = .header1 ∧ announce.hops = 0)
    (hfresh : ∀ n ∈ ns, n.Unaware va.destinationHash va.publicKey announce)
    (h : Leftward (PassesOn va.destinationHash) ns announce.wireBytes ns' w) :
    ∃ q, q.wireBytes = w ∧ Offers announce (headId ns) q ∧
      List.Forall₂ (Learned va.destinationHash va.publicKey announce) ns ns' ∧
      PathsLead va.destinationHash ns' := by
  generalize hw : announce.wireBytes = w₀ at h
  induction h with
  | nil => exact ⟨announce, hw, ⟨rfl, rfl, fun _ => horigin, fun _ hid => by cases hid⟩, .nil,
      trivial⟩
  | @cons n n' _ _ _ ns ns' _ hpass ih =>
    obtain ⟨q, rfl, hq, hlearned, hlead⟩ := ih (fun m hm => hfresh m (List.mem_cons_of_mem _ hm)) hw
    obtain ⟨hhears, hdrained, hcarries⟩ := hpass
    obtain ⟨hl, hleads, honly⟩ := (hfresh n (List.mem_cons_self ..)).hears hq hv ht hhears
    have hids : headId ns' = headId ns := by
      cases hlearned with
      | nil => rfl
      | cons hm _ => exact congrArg some hm.id
    refine ⟨_, (honly _ _ hdrained hcarries).symm, hq.reissued _, .cons hl hlearned, ?_, hlead⟩
    rw [hids]
    exact hleads

end Relay

end

end Reticulum
