import Reticulum.Rns.Transport.Run
import Reticulum.Rns.Vectors

/-!
# The routes of a node

`step_path` lists what one call may do to the path of one destination. A path can be used when it
is one hop long or names its next hop. `cache_validated_announce` takes a HEADER_1 announce to come
from one hop away, but stores the hops byte it carries, so a HEADER_1 announce sent with a hops byte
above 0 leaves a longer path without a next hop.
-/

namespace Reticulum

theorem length_bumpHops (wire : Bytes) : (bumpHops wire).length = wire.length := by
  unfold bumpHops
  split <;> simp

theorem byteAt_one_bumpHops {wire : Bytes} (h : 2 ≤ wire.length) :
    1 ≤ (bumpHops wire).byteAt 1 := by
  rw [UInt8.le_iff_toNat_le]
  unfold bumpHops
  split
  · rename_i hlt
    have hlt : (wire.byteAt 1).toNat < 255 := UInt8.lt_iff_toNat_lt.mp hlt.2
    have hset : Bytes.byteAt (wire.set 1 (wire.byteAt 1 + 1)) 1 = wire.byteAt 1 + 1 := by
      simp [Bytes.byteAt, show 1 < wire.length from h]
    rw [hset, UInt8.toNat_add]
    simp only [UInt8.toNat_ofNat]
    omega
  · rename_i hlt
    have hlt : ¬ (wire.byteAt 1).toNat < 255 := fun hn => hlt ⟨h, UInt8.lt_iff_toNat_lt.mpr hn⟩
    simp only [UInt8.toNat_ofNat]
    omega

theorem one_le_hops {wire : Bytes} {p : Packet} (h : arriving wire = some p) : 1 ≤ p.hops := by
  have hw := arriving_hops h
  have hlen := p.length_wireBytes
  rw [hw, length_bumpHops] at hlen
  have hhops : p.wireBytes.byteAt 1 = p.hops := by rw [p.wireBytes_eq]; rfl
  rw [← hhops, hw]
  exact byteAt_one_bumpHops (by omega)

theorem relayOf_eq_some {p q : Packet} {h2 : p.headerType = .header2} {e : PathEntry} {o : IfaceId}
    (h : relayOf p h2 e = some (o, q)) : e.receivingInterface = some o ∧
      (e.hops > 1 ∧ (∃ hn, q = p.withTransportId h2 e.nextHop hn) ∨
        e.hops = 1 ∧ q = p.asHeader1) := by
  obtain ⟨o', ho, h⟩ := Option.bind_eq_some_iff.mp h
  split at h
  · split at h
    · cases h
      exact ⟨ho, .inl ⟨‹_›, ‹_›, rfl⟩⟩
    · cases h
  · split at h
    · cases h
      exact ⟨ho, .inr ⟨‹_›, rfl⟩⟩
    · cases h

/-- A relay rewrites nothing that the packet hash covers. -/
theorem relayOf_hashablePart {p q : Packet} {h2 : p.headerType = .header2} {e : PathEntry}
    {o : IfaceId} (h : relayOf p h2 e = some (o, q)) : q.hashablePart = p.hashablePart := by
  obtain ⟨-, ⟨-, hn, rfl⟩ | ⟨-, rfl⟩⟩ := relayOf_eq_some h
  · exact Packet.hashablePart_eq_iff.mpr ⟨rfl, rfl, rfl, rfl⟩
  · exact Packet.hashablePart_eq_iff.mpr ⟨low_toHeader1Flags _, rfl, rfl, rfl⟩

def Packet.RelayedBy (q : Packet) (e : PathEntry) : Prop :=
  (e.hops > 1 → q.headerType = .header2 ∧ q.transportId = e.nextHop) ∧
    (e.hops = 1 → q.headerType = .header1)

theorem relayOf_relayedBy {p q : Packet} {h2 : p.headerType = .header2} {e : PathEntry}
    {o : IfaceId} (h : relayOf p h2 e = some (o, q)) : q.RelayedBy e := by
  obtain ⟨-, ⟨hlt, hn, rfl⟩ | ⟨hone, rfl⟩⟩ := relayOf_eq_some h
  · refine ⟨fun _ => ⟨h2, rfl⟩, fun hone => ?_⟩
    rw [hone] at hlt
    exact absurd hlt (by decide)
  · refine ⟨fun hlt => ?_, fun _ => headerTypeOf_toHeader1Flags _⟩
    rw [hone] at hlt
    exact absurd hlt (by decide)

/-- The path can be followed: it is one hop long, or it names the next hop. -/
def PathEntry.Usable (e : PathEntry) : Prop := e.hops = 1 ∨ e.nextHop.length = transportIdLen

theorem relayOf_usable {p q : Packet} {h2 : p.headerType = .header2} {e : PathEntry} {o : IfaceId}
    (h : relayOf p h2 e = some (o, q)) : e.Usable := by
  obtain ⟨-, ⟨-, hn, -⟩ | ⟨hone, -⟩⟩ := relayOf_eq_some h
  · exact .inr hn
  · exact .inl hone

theorem relayOf_of_usable {p : Packet} (h2 : p.headerType = .header2) {e : PathEntry} {o : IfaceId}
    (ho : e.receivingInterface = some o) (hh : 1 ≤ e.hops) (hu : e.Usable) :
    ∃ q, relayOf p h2 e = some (o, q) := by
  unfold relayOf
  rw [ho, Option.bind_some]
  split
  · rename_i hgt
    rcases hu with hone | hlen
    · rw [hone] at hgt
      exact absurd hgt (by decide)
    · exact ⟨_, dif_pos hlen⟩
  · rename_i hle
    have hone : e.hops = 1 := UInt8.le_antisymm (UInt8.not_lt.mp hle) hh
    exact ⟨_, if_pos hone⟩

theorem length_learnedNextHop (p : Packet) : learnedNextHop p = [] ∨
    p.headerType = .header2 ∧ (learnedNextHop p).length = transportIdLen := by
  unfold learnedNextHop
  split
  · rename_i h2
    exact .inr ⟨h2, p.transportId_length.trans (if_pos h2)⟩
  · exact .inl rfl

namespace Transport
section
variable [CryptoLib]

/-- How a call may change the path of the destination `d`. -/
inductive PathStep (t : Transport) (d : Bytes) : Action → Transport → Prop
  | keep {a : Action} {t' : Transport} (h : t'.paths.get d = t.paths.get d) : PathStep t d a t'
  | learn {i : IfaceId} {wire : Bytes} {now : Nat} {p : Packet} {va : ValidatedAnnounce}
    {blobs : List Bytes} {t' : Transport} (hw : arriving wire = some p)
    (hk : p.handler = .announce) (ha : t.accepts p = some va) (hd : va.destinationHash = d)
    (h : t'.paths.get d = some { t.learnedPath va i p now with randomBlobs := blobs }) :
    PathStep t d (.inbound i wire now) t'
  | note {i : IfaceId} {wire : Bytes} {now : Nat} {e : PathEntry} {blobs : List Bytes}
    {t' : Transport} (he : t.paths.get d = some e)
    (h : t'.paths.get d = some { e with randomBlobs := blobs }) :
    PathStep t d (.inbound i wire now) t'
  | expire {now : Nat} {e : PathEntry} {t' : Transport} (he : t.paths.get d = some e)
    (hx : e.expiresMs ≤ now) (h : t'.paths.get d = none) : PathStep t d (.tick now) t'

omit [CryptoLib] in
theorem noteRandomBlob_get {paths : PathTable} {d : Bytes} {e : PathEntry} (blob : Bytes)
    (h : paths.get d = some e) :
    ∃ blobs, (paths.noteRandomBlob d blob).2.get d = some { e with randomBlobs := blobs } := by
  rw [PathTable.get_noteRandomBlob, if_pos rfl, h, Option.map_some]
  split
  · exact ⟨e.randomBlobs, rfl⟩
  · exact ⟨_, rfl⟩

theorem step_path {t t' : Transport} {a : Action} (h : t.step a = .ok t') (d : Bytes) :
    PathStep t d a t' := by
  cases step_did h with
  | apart _ hk => exact .keep (by rw [hk.paths])
  | dropped _ => exact .keep rfl
  | @took i _ now p _ hw hs hh =>
    cases hh with
    | ignored _ => exact .keep rfl
    | @announce va _ _ hk ha _ =>
      by_cases hd : d = va.destinationHash
      · subst hd
        by_cases hr : replacesPath (t.paths.get va.destinationHash) p.hops va.randomHash now = true
        · have hl : (t.learnedPaths va i p now).get va.destinationHash =
              some (t.learnedPath va i p now) := by
            rw [learnedPaths, if_pos hr, PathTable.get_put, if_pos rfl]
          obtain ⟨blobs, hb⟩ := noteRandomBlob_get va.randomHash hl
          exact .learn hw hk ha rfl hb
        · cases he : t.paths.get va.destinationHash with
          | none => rw [he] at hr; exact absurd rfl hr
          | some e =>
            have hl : (t.learnedPaths va i p now).get va.destinationHash = some e := by
              rw [learnedPaths, if_neg hr, he]
            obtain ⟨blobs, hb⟩ := noteRandomBlob_get va.randomHash hl
            exact .note he hb
      · refine .keep ((PathTable.get_noteRandomBlob _ _ _ _).trans ?_)
        rw [if_neg hd, learnedPaths]
        split
        · rw [PathTable.get_put, if_neg hd]
        · rfl
    | pathRequest _ _ => exact .keep rfl
    | data _ _ => exact .keep rfl
    | linkRequest _ _ => exact .keep rfl
    | proof _ _ => exact .keep rfl
    | linkProof _ _ => exact .keep rfl
    | linkData _ _ => exact .keep rfl
  | @ticked now _ _ _ _ _ _ =>
    have hget := t.paths.get_evictExpired now d
    cases he : t.paths.get d with
    | none => exact .keep (by simp only [hget, he, Option.filter_none])
    | some e =>
      rw [he, Option.filter_some] at hget
      by_cases hx : e.expiresMs ≤ now
      · exact .expire he hx (by simpa [hx] using hget)
      · exact .keep (by simpa [hx, he] using hget)

/-! ### Invariants -/

/-- Every path leads out of some interface, is at least one hop long, and names no next hop or a
whole transport id. -/
def PathInv (t : Transport) : Prop :=
  ∀ d e, t.paths.get d = some e → (∃ i, e.receivingInterface = some i) ∧ 1 ≤ e.hops ∧
    (e.nextHop = [] ∨ e.nextHop.length = transportIdLen)

theorem pathInv_step {t t' : Transport} {a : Action} (hi : PathInv t) (h : t.step a = .ok t') :
    PathInv t' := by
  intro d e he
  cases step_path h d with
  | keep hk => exact hi d e (hk ▸ he)
  | learn hw _ _ _ hg =>
    cases hg.symm.trans he
    exact ⟨⟨_, rfl⟩, one_le_hops hw, (length_learnedNextHop _).imp id And.right⟩
  | note he' hg =>
    cases hg.symm.trans he
    have hold := hi d _ he'
    exact hold
  | expire _ _ hg => cases hg.symm.trans he

theorem Reachable.pathInv {t : Transport} (h : Reachable t) : PathInv t :=
  h.inv (fun _ _ _ d e he => by cases he) fun _ _ _ => pathInv_step

def AllUsable (t : Transport) : Prop := ∀ d e, t.paths.get d = some e → e.Usable

/-- The call does not bring a HEADER_1 announce from further than one hop. -/
def Action.Direct (a : Action) : Prop :=
  ∀ i wire now p, a = .inbound i wire now → arriving wire = some p → p.packetType = .announce →
    p.headerType = .header1 → p.hops = 1

theorem allUsable_step {t t' : Transport} {a : Action} (hi : AllUsable t) (h : t.step a = .ok t')
    (ha : Action.Direct a) : AllUsable t' := by
  intro d e he
  cases step_path h d with
  | keep hk => exact hi d e (hk ▸ he)
  | @learn i wire now p _ _ _ hw hk _ _ hg =>
    cases hg.symm.trans he
    rcases length_learnedNextHop p with hn | ⟨-, hn⟩
    · refine .inl (ha i wire now p rfl hw (Packet.handler_eq_announce.mp hk) ?_)
      by_contra h1
      have h2 : p.headerType = .header2 := by
        cases ht : p.headerType with
        | header1 => exact absurd ht h1
        | header2 => rfl
      have htid := p.transportId_length
      rw [if_pos (show headerTypeOf p.flags = .header2 from h2)] at htid
      simp only [learnedNextHop, h2, ↓reduceIte] at hn
      rw [hn] at htid
      cases htid
    · exact .inr hn
  | note he' hg =>
    cases hg.symm.trans he
    have hold := hi d _ he'
    exact hold
  | expire _ _ hg => cases hg.symm.trans he

/-! ### Using a path -/

theorem step_data {t : Transport} {i o : IfaceId} {wire : Bytes} {p q : Packet} {e : PathEntry}
    (now : Nat) (hw : arriving wire = some p) (hs : t.hasSeen p = false) (hk : p.handler = .data)
    (hr : t.route p = some (e, o, q)) :
    ∃ s, t.step (.inbound i wire now) = .ok { t with
      stats := s
      hashlist := t.recorded p
      out := [.transmit .dataForward o q.wireBytes]
      reverseTable := t.reverseTable.put ⟨proofHash p, some i, some o, now⟩ } :=
  inbound_data_of_route (t := { t with out := [] }) _ hw hs hk hr

/-- The node relays `p`, read from `wire`, along the path `e` and records where it came from. -/
def Relays (t : Transport) (e : PathEntry) (i : IfaceId) (wire : Bytes) (p : Packet) (now : Nat) :
    Prop :=
  ∃ t' o, ∃ q : Packet, t.step (.inbound i wire now) = .ok t' ∧ e.receivingInterface = some o ∧
    t'.transmissions = [(o, q.wireBytes)] ∧ q.RelayedBy e ∧ q.hashablePart = p.hashablePart ∧
    t'.reverseTable.get (proofHash p) = some ⟨proofHash p, some i, some o, now⟩

theorem relays_iff {t : Transport} {e : PathEntry} {i : IfaceId} {wire : Bytes} {p : Packet}
    (now : Nat) (hi : PathInv t) (he : t.paths.get p.destinationHash = some e)
    (hw : arriving wire = some p) (h2 : p.headerType = .header2)
    (hid : p.transportId = t.localIdentity.identityHash) (hk : p.handler = .data)
    (hs : t.hasSeen p = false) : Relays t e i wire p now ↔ e.Usable := by
  obtain ⟨⟨o, ho⟩, hhops, -⟩ := hi _ e he
  have hroute : t.route p = (relayOf p h2 e).map (e, ·) := by
    rw [route, dif_pos ⟨h2, hid⟩, he, Option.bind_some]
  constructor
  · rintro ⟨t', o', q, hstep, -, htx, -⟩
    cases hr : relayOf p h2 e with
    | none =>
      rw [hr, Option.map_none] at hroute
      obtain ⟨s, h⟩ := inbound_data_of_route_none (i := i) (t := { t with out := [] })
        now hw hs hk hroute
      cases h.symm.trans hstep
      cases htx
    | some oq => exact relayOf_usable hr
  · intro hu
    obtain ⟨q, hr⟩ := relayOf_of_usable h2 ho hhops hu
    rw [hr, Option.map_some] at hroute
    obtain ⟨s, h⟩ := step_data (i := i) now hw hs hk hroute
    exact ⟨_, o, q, h, ho, rfl, relayOf_relayedBy hr, relayOf_hashablePart hr,
      (ReverseTable.get_put _ _ _).trans (if_pos rfl)⟩

/-- DATA addressed to this node is relayed along the path it holds exactly when the path is one hop
long or names the next hop; and it always is, where no HEADER_1 announce has come from further than
one hop. -/
theorem relays_iff_usable :
    (∀ {t : Transport} {d : Bytes} {e : PathEntry} {i : IfaceId} {wire : Bytes} {p : Packet}
      (now : Nat), Reachable t → t.paths.get d = some e → d ≠ pathRequestDestinationHash →
      arriving wire = some p → p.headerType = .header2 → p.packetType = .data →
      p.destinationType ≠ .link → p.destinationHash = d →
      p.transportId = t.localIdentity.identityHash → t.hasSeen p = false →
      (Relays t e i wire p now ↔ e.Usable)) ∧
    ∀ {id₀ : Identity} {cfg : IfaceId → Interface.Config} {rs : List (Rec Transport Action)}
      {t : Transport} {d : Bytes} {e : PathEntry} {i : IfaceId} {wire : Bytes} {p : Packet}
      (now : Nat), Run Steps (new id₀ true cfg) rs t → (∀ r ∈ rs, Action.Direct r.act) →
      t.paths.get d = some e → d ≠ pathRequestDestinationHash → arriving wire = some p →
      p.headerType = .header2 → p.packetType = .data → p.destinationType ≠ .link →
      p.destinationHash = d → p.transportId = t.localIdentity.identityHash → t.hasSeen p = false →
      Relays t e i wire p now := by
  constructor
  · rintro t d e i wire p now ht he hd hw h2 hp hdt rfl hid hs
    exact relays_iff now ht.pathInv he hw h2 hid (Packet.handler_eq_data.mpr ⟨hp, hd, hdt⟩) hs
  · rintro id₀ cfg rs t d e i wire p now hrun hdirect he hd hw h2 hp hdt rfl hid hs
    have ht : Reachable t := (reachable_new id₀ true cfg).run hrun
    have husable : AllUsable t := hrun.inv_of (fun d e he => by cases he) hdirect
      fun s a s' hi hs ha => allUsable_step hi hs ha
    exact (relays_iff now ht.pathInv he hw h2 hid (Packet.handler_eq_data.mpr ⟨hp, hd, hdt⟩)
      hs).mpr (husable _ e he)

end

open Vectors
attribute [local instance] lib

set_option maxRecDepth 100000 in
theorem heardAlice_path : (relay.steps heardAlice).toOption.map (fun t =>
    ((t.paths.get aliceDest).map fun e => (e.hops, e.nextHop),
      t.hasSeen (dataPacket bob.identityHash rfl))) =
    some (some (1, []), false) := by
  decide +kernel

theorem direct_heardAlice : ∀ a ∈ heardAlice, Action.Direct a := by
  intro a ha i wire now p hact hw _ _
  subst hact
  simp only [heardAlice, List.mem_cons, reduceCtorEq, Action.inbound.injEq, List.not_mem_nil,
    or_false, false_or] at ha
  obtain ⟨-, rfl, -⟩ := ha
  have hhops : (arriving aliceAnnounce).map Packet.hops = some 1 := by decide +kernel
  rw [hw] at hhops
  exact Option.some.inj hhops

/-- Alice is one hop away; DATA for her is relayed, by either part of the theorem. -/
theorem relays_iff_usable_alice : ∃ t e, Reachable t ∧ t.paths.get aliceDest = some e ∧ e.Usable ∧
    Relays t e 0 (dataVia bob.identityHash) (dataPacket bob.identityHash rfl) 2000 := by
  obtain ⟨t, hsteps, ht, hf⟩ :=
    reachable_of_steps (reachable_new bob true fun _ => cfg) heardAlice_path
  have hid : t.localIdentity = bob := steps_localIdentity hsteps
  obtain ⟨he, hs⟩ := Prod.mk.inj hf
  obtain ⟨e, he, -⟩ := Option.map_eq_some_iff.mp he
  obtain ⟨rs, hrun, hacts⟩ := run_of_steps hsteps
  have hdirect : ∀ r ∈ rs, Action.Direct r.act := fun r hr =>
    direct_heardAlice _ (hacts ▸ List.mem_map_of_mem hr)
  have hlocal : (dataPacket bob.identityHash rfl).transportId = t.localIdentity.identityHash := by
    rw [hid]; rfl
  have hrelays := relays_iff_usable.2 (i := 0) 2000 hrun hdirect he aliceDest_ne_pathRequest
    arriving_dataVia_bob (by decide) (by decide) (by decide) rfl hlocal hs
  exact ⟨t, e, ht, he, (relays_iff_usable.1 2000 ht he aliceDest_ne_pathRequest
    arriving_dataVia_bob (by decide) (by decide) (by decide) rfl hlocal hs).mp hrelays, hrelays⟩

/-- Alice's announce, as she would send it with five hops counted already. -/
def farAnnounce : Bytes := aliceAnnounce.set 1 5

set_option maxRecDepth 100000 in
theorem heardFarAlice_path : (relay.steps [.registerInterface 0, .registerInterface 1,
    .inbound 1 farAnnounce 1000]).toOption.map (fun t =>
      (t.transportEnabled, (t.paths.get aliceDest).map fun e => (e.hops, e.nextHop),
        t.hasSeen (dataPacket bob.identityHash rfl))) =
    some (true, some (6, []), false) := by
  decide +kernel

/-- That announce leaves a path of six hops without a next hop, and DATA for Alice is dropped. -/
theorem farAnnounce_not_relayed : ∃ t e, Reachable t ∧ t.transportEnabled = true ∧
    t.paths.get aliceDest = some e ∧ aliceDest ≠ pathRequestDestinationHash ∧
    arriving (dataVia bob.identityHash) = some (dataPacket bob.identityHash rfl) ∧
    (dataPacket bob.identityHash rfl).headerType = .header2 ∧
    (dataPacket bob.identityHash rfl).packetType = .data ∧
    (dataPacket bob.identityHash rfl).destinationType ≠ .link ∧
    (dataPacket bob.identityHash rfl).destinationHash = aliceDest ∧
    (dataPacket bob.identityHash rfl).transportId = t.localIdentity.identityHash ∧
    t.hasSeen (dataPacket bob.identityHash rfl) = false ∧
    ¬ Relays t e 0 (dataVia bob.identityHash) (dataPacket bob.identityHash rfl) 2000 := by
  obtain ⟨t, hsteps, ht, hf⟩ :=
    reachable_of_steps (reachable_new bob true fun _ => cfg) heardFarAlice_path
  have hid : t.localIdentity = bob := steps_localIdentity hsteps
  obtain ⟨hen, hf⟩ := Prod.mk.inj hf
  obtain ⟨he, hs⟩ := Prod.mk.inj hf
  obtain ⟨e, he, hroute⟩ := Option.map_eq_some_iff.mp he
  obtain ⟨hhops, hnext⟩ := Prod.mk.inj hroute
  have hlocal : (dataPacket bob.identityHash rfl).transportId = t.localIdentity.identityHash := by
    rw [hid]; rfl
  refine ⟨t, e, ht, hen, he, aliceDest_ne_pathRequest, arriving_dataVia_bob, by decide, by decide,
    by decide, rfl, hlocal, hs, ?_⟩
  rw [relays_iff 2000 ht.pathInv he arriving_dataVia_bob (by decide) hlocal (by decide +kernel) hs]
  rintro (hone | hlen)
  · rw [hhops] at hone
    exact absurd hone (by decide)
  · rw [hnext] at hlen
    cases hlen

end Transport
end Reticulum
