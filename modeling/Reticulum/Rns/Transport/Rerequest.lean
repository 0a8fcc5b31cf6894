import Reticulum.Rns.Transport.Links

/-!
# Further requests for an established link

`LinkTable::put` replaces the entry stored under a link id, and `link_id_from_lr_packet` leaves out
the signalling tail that the dedup hash covers. So the same request with another tail is new to
`inbound` and puts an unvalidated entry in place of the established one.
-/

namespace Reticulum
open Transport

section
variable [CryptoLib]

/-- The link `id` is established, between the interfaces of `e` and for its destination. -/
def Established (id : Bytes) (e : LinkEntry) (t : Transport) : Prop :=
  ∃ e', t.linkTable.get id = some e' ∧ e'.validated = true ∧ e'.rcvdIf = e.rcvdIf ∧
    e'.nhIf = e.nhIf ∧ e'.dstHash = e.dstHash

/-- `p` is new to the node, has a route, and asks for the link `id`. -/
def Rerequests (t : Transport) (id : Bytes) (p : Packet) : Prop :=
  t.hasSeen p = false ∧ t.route p ≠ none ∧ linkIdFromLrPacket p = id

/-- The step relays a LINKCLOSE of the link `id`. -/
def ClosesLink (id : Bytes) (r : Rec Transport Action) : Prop :=
  ∃ i wire now p o, r.act = .inbound i wire now ∧ arriving wire = some p ∧
    p.packetType = .data ∧ p.destinationType = .link ∧ p.destinationHash = id ∧
    p.context = contextLinkclose ∧ .transmit .linkForward o p.wireBytes ∈ r.post.out

/-- The step is a tick that finds the link `id` stale. -/
def FindsStale (id : Bytes) (r : Rec Transport Action) : Prop :=
  ∃ now e, r.act = .tick now ∧ r.pre.linkTable.get id = some e ∧ e.validated = true ∧
    e.lastActivityMs + linkStaleThresholdMs ≤ now

namespace Transport

theorem established_step {id : Bytes} {e : LinkEntry} {t t' : Transport} {a : Action}
    (h : t.step a = .ok t') (he : Established id e t) :
    Established id e t' ∨ ClosesLink id ⟨t, a, t'⟩ ∨ FindsStale id ⟨t, a, t'⟩ ∨
      ∃ i wire now p, a = .inbound i wire now ∧ arriving wire = some p ∧
        p.packetType = .linkRequest ∧ Rerequests t id p := by
  obtain ⟨e₀, hget, hv, hr, hn, hd⟩ := he
  cases step_link h id with
  | keep hk => exact .inl ⟨e₀, hk.trans hget, hv, hr, hn, hd⟩
  | request hw hs hk hroute hid _ =>
    refine .inr (.inr (.inr
      ⟨_, _, _, _, rfl, hw, Packet.handler_eq_linkRequest.mp hk, hs, ?_, hid⟩))
    rw [hroute]
    exact Option.some_ne_none _
  | proof _ _ _ hp hid hg =>
    obtain ⟨hget', -⟩ := provenLink_eq_some hp
    rw [hid] at hget'
    cases hget.symm.trans hget'
    exact .inl ⟨_, hg, rfl, hr, hn, hd⟩
  | data _ _ _ hl hid _ hg =>
    obtain ⟨hget', -⟩ := linkRoute_eq_some hl
    rw [hid] at hget'
    cases hget.symm.trans hget'
    exact .inl ⟨_, hg, hv, hr, hn, hd⟩
  | @close i o wire now p _ _ hw hs hk hl hid hc _ =>
    obtain ⟨s, hstep⟩ := inbound_linkData_of_linkRoute (t := { t with out := [] }) _ hw hs hk hl
    cases hstep.symm.trans h
    obtain ⟨ht, -, hdt⟩ := Packet.handler_eq_linkData.mp hk
    exact .inr (.inl ⟨i, wire, now, p, o, rfl, hw, ht, hdt, hid, hc, List.mem_singleton_self _⟩)
  | lapse hget' hl _ =>
    cases hget.symm.trans hget'
    rw [lapsed_validated hv, decide_eq_true_eq] at hl
    exact .inr (.inr (.inl ⟨_, _, rfl, hget, hv, hl⟩))

/-- A LINKREQUEST leaves an established link alone exactly when it does not ask for that link anew;
and while none does, only a relayed LINKCLOSE or a stale clock ends the link. -/
theorem established_kept_iff :
    (∀ {t : Transport} {id : Bytes} {e : LinkEntry} {i : IfaceId} {wire : Bytes} {p : Packet}
      (now : Nat), Reachable t → t.linkTable.get id = some e → e.validated = true →
      arriving wire = some p → p.packetType = .linkRequest →
      ((∃ t', t.step (.inbound i wire now) = .ok t' ∧ Established id e t') ↔
        ¬ Rerequests t id p)) ∧
    ∀ {t₀ t : Transport} {rs : List (Rec Transport Action)} {id : Bytes} {e : LinkEntry},
      Reachable t₀ → Run Steps t₀ rs t → t₀.linkTable.get id = some e → e.validated = true →
      (∀ r ∈ rs, ∀ i wire now p, r.act = .inbound i wire now → arriving wire = some p →
        p.packetType = .linkRequest → ¬ Rerequests r.pre id p) →
      Established id e t ∨
        ∃ r ∈ rs, Established id e r.pre ∧ (ClosesLink id r ∨ FindsStale id r) := by
  refine ⟨fun {t id e i wire p} now ht he hv hw hp => ⟨?_, fun hno => ?_⟩, ?_⟩
  · rintro ⟨t', hstep, e', he', hv', -⟩ ⟨hs, hr, rfl⟩
    obtain ⟨⟨path, o, q⟩, hr⟩ := Option.ne_none_iff_exists'.mp hr
    obtain ⟨s, hreq⟩ :=
      step_linkRequest (i := i) now hw hs (Packet.handler_eq_linkRequest.mpr hp) hr
    cases hreq.symm.trans hstep
    -- the entry just put is pending
    cases ((LinkTable.get_put _ _ _).trans (if_pos rfl)).symm.trans he'
    cases hv'
  · have hk := Packet.handler_eq_linkRequest.mpr hp
    have hkept : Established id e t := ⟨e, he, hv, rfl, rfl, rfl⟩
    cases hs : t.hasSeen p with
    | true =>
      obtain ⟨s, h⟩ := step_of_hasSeen (t := t) (i := i) now hw hs
      exact ⟨_, h, hkept⟩
    | false =>
      cases hr : t.route p with
      | none =>
        obtain ⟨s, h⟩ := inbound_linkRequest_of_route_none (i := i)
          (t := { t with out := [] }) now hw hs hk hr
        exact ⟨_, h, hkept⟩
      | some r =>
        obtain ⟨path, o, q⟩ := r
        obtain ⟨s, h⟩ := step_linkRequest (i := i) now hw hs hk hr
        have hid : id ≠ linkIdFromLrPacket p := fun hid => hno ⟨hs, by simp [hr], hid.symm⟩
        exact ⟨_, h, e, ((LinkTable.get_put _ _ _).trans (if_neg hid)).trans he, hv, rfl, rfl, rfl⟩
  · intro t₀ t rs id e _ hrun he hv hno
    refine hrun.holds_until ⟨e, he, hv, rfl, rfl, rfl⟩ fun r hr hstep hpre => ?_
    rcases established_step hstep hpre with h | h | h | ⟨i, wire, now, p, ha, hw, hp, hq⟩
    · exact .inl h
    · exact .inr ⟨hpre, .inl h⟩
    · exact .inr ⟨hpre, .inr h⟩
    · exact absurd hq (hno r hr i wire now p ha hw hp)

end Transport
end

namespace Transport
open Vectors
attribute [local instance] lib

def signalledRequest : Bytes := linkRequest ++ [0x20, 0x01, 0xF4]

set_option maxRecDepth 100000 in
theorem linkUp_rerequest_state : (relay.steps linkUp).toOption.map (fun t =>
    (t.linkTable.get linkId, (arriving linkRequest).map fun p => (p.packetType, t.hasSeen p),
      (t.steps [.inbound 0 signalledRequest 4000]).toOption.map fun t' =>
        (t'.linkTable.get linkId).map LinkEntry.validated)) =
    some (some (linkEntry 3000), some (.linkRequest, true), some (some false)) := by
  decide +kernel

/-- The request of the vectors, repeated, leaves its link established. -/
theorem established_kept_iff_linkUp : ∃ t t' r, Reachable t ∧
    t.step (.inbound 0 linkRequest 4000) = .ok t' ∧ Established linkId (linkEntry 3000) t' ∧
    (Established linkId (linkEntry 3000) t' ∨
      Established linkId (linkEntry 3000) t ∧ (ClosesLink linkId r ∨ FindsStale linkId r)) := by
  obtain ⟨t, -, ht, hf⟩ :=
    reachable_of_steps (reachable_new bob true fun _ => cfg) linkUp_rerequest_state
  obtain ⟨he, hf⟩ := Prod.mk.inj hf
  obtain ⟨hp, -⟩ := Prod.mk.inj hf
  obtain ⟨p, hw, hp⟩ := Option.map_eq_some_iff.mp hp
  obtain ⟨hp, hs⟩ := Prod.mk.inj hp
  have hno : ¬ Rerequests t linkId p := fun h => Bool.false_ne_true (h.1.symm.trans hs)
  obtain ⟨t', hstep, hkept⟩ := (established_kept_iff.1 (i := 0) 4000 ht he rfl hw hp).mpr hno
  have hend := established_kept_iff.2 ht (.single hstep) he rfl fun r hr i wire now q ha hw' _ => by
    obtain rfl := List.mem_singleton.mp hr
    cases ha
    cases hw.symm.trans hw'
    exact hno
  refine ⟨t, t', ⟨t, .inbound 0 linkRequest 4000, t'⟩, ht, hstep, hkept, hend.imp_right ?_⟩
  rintro ⟨r, hr, h⟩
  obtain rfl := List.mem_singleton.mp hr
  exact h

/-- The same request with a signalling tail has the same link id and replaces the established entry
by a pending one. -/
theorem rerequest_unvalidates : ∃ t t' p, Reachable t ∧
    t.linkTable.get linkId = some (linkEntry 3000) ∧ (linkEntry 3000).validated = true ∧
    arriving signalledRequest = some p ∧ p.packetType = .linkRequest ∧
    t.step (.inbound 0 signalledRequest 4000) = .ok t' ∧
    ¬ Established linkId (linkEntry 3000) t' := by
  obtain ⟨t, -, ht, hf⟩ :=
    reachable_of_steps (reachable_new bob true fun _ => cfg) linkUp_rerequest_state
  obtain ⟨he, hf⟩ := Prod.mk.inj hf
  obtain ⟨-, hf⟩ := Prod.mk.inj hf
  obtain ⟨t', h, -, hnew⟩ := reachable_of_steps ht hf
  obtain ⟨t₁, hstep, h⟩ := steps_cons h
  cases h
  have harr : (arriving signalledRequest).map Packet.packetType = some .linkRequest := by
    decide +kernel
  obtain ⟨p, hw, hp⟩ := Option.map_eq_some_iff.mp harr
  refine ⟨t, t', p, ht, he, rfl, hw, hp, hstep, ?_⟩
  rintro ⟨e', he', hv', -⟩
  rw [he'] at hnew
  exact Bool.false_ne_true ((Option.some.inj hnew).symm.trans hv')

end Transport
end Reticulum
