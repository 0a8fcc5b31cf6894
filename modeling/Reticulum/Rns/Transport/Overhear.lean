import Reticulum.Rns.Transport.Run
import Reticulum.Rns.Vectors

/-!
# Overheard copies

On a shared medium a node hears packets addressed to another relay before the copy addressed to
itself. `inbound` records the hash, which leaves out `transport_id`, before any handler looks at
`transport_id`: so the overheard copy of a packet this node could relay suppresses the one it is
asked to relay.
-/

namespace Reticulum

/-- `q` is `p` but for hops and transport id. -/
structure Packet.Copies (q p : Packet) : Prop where
  flags : q.flags = p.flags
  destinationHash : q.destinationHash = p.destinationHash
  context : q.context = p.context
  data : q.data = p.data

theorem Packet.Copies.hashablePart {p q : Packet} (h : q.Copies p) :
    q.hashablePart = p.hashablePart :=
  Packet.hashablePart_eq_iff.mpr ⟨by rw [h.flags], h.destinationHash, h.context, h.data⟩

section
variable [CryptoLib]

theorem Packet.Copies.handler {p q : Packet} (h : q.Copies p) : q.handler = p.handler :=
  Packet.handler_congr (by rw [h.flags]) h.destinationHash h.context

namespace Transport

/-- What a call sends and what it leaves in the tables. -/
structure SameEffect (t t' : Transport) : Prop where
  transmissions : t.transmissions = t'.transmissions
  paths : t.paths = t'.paths
  reverseTable : t.reverseTable = t'.reverseTable
  linkTable : t.linkTable = t'.linkTable

omit [CryptoLib] in
theorem route_of_transportId_ne {t : Transport} {p : Packet}
    (h : p.transportId ≠ t.localIdentity.identityHash) : t.route p = none := by
  simp [route, h]

variable {t : Transport} {i : IfaceId} {wire : Bytes} {p : Packet}

theorem step_of_route_none (now : Nat) (hw : arriving wire = some p) (hs : t.hasSeen p = false)
    (hk : p.handler = .linkRequest ∨ p.handler = .data) (hr : t.route p = none) :
    ∃ s, t.step (.inbound i wire now) =
      .ok { t with stats := s, hashlist := t.recorded p, out := [] } := by
  rcases hk with hk | hk
  · exact inbound_linkRequest_of_route_none (t := { t with out := [] }) _ hw hs hk hr
  · exact inbound_data_of_route_none (t := { t with out := [] }) _ hw hs hk hr

theorem step_of_route {r : PathEntry × IfaceId × Packet} (now : Nat) (hw : arriving wire = some p)
    (hs : t.hasSeen p = false) (hk : p.handler = .linkRequest ∨ p.handler = .data)
    (hr : t.route p = some r) :
    ∃ t', t.step (.inbound i wire now) = .ok t' ∧ t'.transmissions ≠ [] := by
  obtain ⟨e, o, q⟩ := r
  rcases hk with hk | hk
  · obtain ⟨s, h⟩ := inbound_linkRequest_of_route (t := { t with out := [] }) _ hw hs hk hr
    exact ⟨_, h, by simp [transmissions, Event.onAir]⟩
  · obtain ⟨s, h⟩ := inbound_data_of_route (t := { t with out := [] }) _ hw hs hk hr
    exact ⟨_, h, by simp [transmissions, Event.onAir]⟩

/-- Hearing a copy meant for another relay changes nothing for the copy meant for this node exactly
when that packet was known already or this node has no use for it. -/
theorem overheard_transparent_iff {t : Transport} {i i' : IfaceId} {wire wire' : Bytes}
    {p p' : Packet} {now now' : Nat} (hw : arriving wire = some p)
    (hw' : arriving wire' = some p')
    (hk : p.packetType = .linkRequest ∨ p.packetType = .data ∧
      p.destinationHash ≠ pathRequestDestinationHash ∧ p.destinationType ≠ .link)
    (hforeign : p.transportId ≠ t.localIdentity.identityHash) (hcopy : p'.Copies p) :
    (∃ t₁ t₂ t₂', t.step (.inbound i wire now) = .ok t₁ ∧
        t₁.step (.inbound i' wire' now') = .ok t₂ ∧
        t.step (.inbound i' wire' now') = .ok t₂' ∧ SameEffect t₂ t₂') ↔
      t.hasSeen p' = true ∨ t.route p' = none := by
  have hk : p.handler = .linkRequest ∨ p.handler = .data :=
    hk.imp Packet.handler_eq_linkRequest.mpr Packet.handler_eq_data.mpr
  have hk' : p'.handler = .linkRequest ∨ p'.handler = .data := hcopy.handler ▸ hk
  have hsame : t.hasSeen p = t.hasSeen p' := hasSeen_congr t hcopy.hashablePart.symm
  cases hs : t.hasSeen p' with
  | true =>
    obtain ⟨s₁, h₁⟩ := step_of_hasSeen (t := t) (i := i) now hw (hsame.trans hs)
    obtain ⟨s₂, h₂⟩ :=
      step_of_hasSeen (t := { t with stats := s₁, out := [] }) (i := i') now' hw' hs
    obtain ⟨s₂', h₂'⟩ := step_of_hasSeen (t := t) (i := i') now' hw' hs
    exact iff_of_true ⟨_, _, _, h₁, h₂, h₂', rfl, rfl, rfl, rfl⟩ (.inl rfl)
  | false =>
    obtain ⟨s₁, h₁⟩ := step_of_route_none (i := i) now hw (hsame.trans hs) hk
      (route_of_transportId_ne hforeign)
    have hs₁ : hasSeen { t with stats := s₁, hashlist := t.recorded p, out := [] } p' = true := by
      have hhash : dedupHash p' = dedupHash p := by simp only [dedupHash, hcopy.hashablePart]
      exact (contains_recorded t p p').trans (by simp [hhash])
    obtain ⟨s₂, h₂⟩ := step_of_hasSeen (i := i') now' hw' hs₁
    cases hr : t.route p' with
    | none =>
      obtain ⟨s₂', h₂'⟩ := step_of_route_none (i := i') now' hw' hs hk' hr
      exact iff_of_true ⟨_, _, _, h₁, h₂, h₂', rfl, rfl, rfl, rfl⟩ (.inr rfl)
    | some r =>
      obtain ⟨t', h', htx⟩ := step_of_route (i := i') now' hw' hs hk' hr
      refine iff_of_false ?_ (by simp)
      rintro ⟨t₁, t₂, t₂', h₁', h₂', h₃', hsame⟩
      cases h₁.symm.trans h₁'
      cases h₂.symm.trans h₂'
      cases h'.symm.trans h₃'
      exact htx hsame.transmissions.symm

end Transport
end
namespace Transport
open Vectors
attribute [local instance] lib

/-- A node that has never heard of Alice drops both copies. -/
theorem overheard_transparent_no_route : ∃ t₁ t₂ t₂',
    relay.step (.inbound 0 (dataVia otherRelay) 2000) = .ok t₁ ∧
    t₁.step (.inbound 0 (dataVia bob.identityHash) 2001) = .ok t₂ ∧
    relay.step (.inbound 0 (dataVia bob.identityHash) 2001) = .ok t₂' ∧ SameEffect t₂ t₂' :=
  (overheard_transparent_iff arriving_dataVia_other arriving_dataVia_bob
    (.inr ⟨by decide, aliceDest_ne_pathRequest, by decide⟩) (by decide) ⟨rfl, rfl, rfl, rfl⟩).mpr
    (.inr rfl)

set_option maxRecDepth 100000 in
theorem heardAlice_state : (relay.steps heardAlice).toOption.map (fun t =>
    ((t.steps [.inbound 0 (dataVia otherRelay) 2000,
        .inbound 0 (dataVia bob.identityHash) 2001]).toOption.map transmissions,
      (t.steps [.inbound 0 (dataVia bob.identityHash) 2001]).toOption.map transmissions)) =
    some (some [], some [(1, (dataPacket bob.identityHash rfl).asHeader1.wireBytes)]) := by
  decide +kernel

/-- Once Alice has been heard, the copy of her DATA addressed to another relay stops the copy
addressed to this one. -/
theorem overheard_copy_suppresses : ∃ t t₁ t₂ t₂', Reachable t ∧
    arriving (dataVia otherRelay) = some (dataPacket otherRelay rfl) ∧
    arriving (dataVia bob.identityHash) = some (dataPacket bob.identityHash rfl) ∧
    (dataPacket otherRelay rfl).headerType = .header2 ∧
    (dataPacket otherRelay rfl).packetType = .data ∧
    (dataPacket otherRelay rfl).destinationType ≠ .link ∧
    (dataPacket otherRelay rfl).destinationHash ≠ pathRequestDestinationHash ∧
    (dataPacket otherRelay rfl).transportId ≠ t.localIdentity.identityHash ∧
    (dataPacket bob.identityHash rfl).transportId = t.localIdentity.identityHash ∧
    (dataPacket bob.identityHash rfl).Copies (dataPacket otherRelay rfl) ∧
    t.step (.inbound 0 (dataVia otherRelay) 2000) = .ok t₁ ∧
    t₁.step (.inbound 0 (dataVia bob.identityHash) 2001) = .ok t₂ ∧
    t.step (.inbound 0 (dataVia bob.identityHash) 2001) = .ok t₂' ∧
    t₂.transmissions = [] ∧
    t₂'.transmissions = [(1, (dataPacket bob.identityHash rfl).asHeader1.wireBytes)] := by
  obtain ⟨t, hsteps, ht, hf⟩ :=
    reachable_of_steps (reachable_new bob true fun _ => cfg) heardAlice_state
  have hid : t.localIdentity = bob := steps_localIdentity hsteps
  obtain ⟨hboth, hone⟩ := Prod.mk.inj hf
  obtain ⟨t₂, h, -, htx⟩ := reachable_of_steps ht hboth
  obtain ⟨t₁, h₁, h⟩ := steps_cons h
  obtain ⟨_, h₂, h⟩ := steps_cons h
  cases h
  obtain ⟨t₂', h, -, htx'⟩ := reachable_of_steps ht hone
  obtain ⟨_, h₂', h⟩ := steps_cons h
  cases h
  refine ⟨t, t₁, t₂, t₂', ht, arriving_dataVia_other, arriving_dataVia_bob, by decide, by decide,
    by decide, aliceDest_ne_pathRequest, ?_, by rw [hid]; rfl, ⟨rfl, rfl, rfl, rfl⟩, h₁, h₂, h₂',
    htx, htx'⟩
  rw [hid]
  decide

end Transport
end Reticulum
