import Reticulum.Rns.Transport.Links

/-!
# No link traffic without the responder's proof

An entry starts unvalidated with its LINKREQUEST and becomes validated by one LRPROOF only. So a
validated entry, and with it any relayed link DATA, points back in the run to the request that
wrote the entry and to a proof after it.
-/

namespace Reticulum
open Transport

section
variable [CryptoLib]

/-- The step takes in a LINKREQUEST that writes the entry `e` of the link `id`. -/
def Requests (id : Bytes) (r : Rec Transport Action) (e : LinkEntry) : Prop :=
  ∃ i o wire now p q path, r.act = .inbound i wire now ∧ arriving wire = some p ∧
    r.pre.hasSeen p = false ∧ p.packetType = .linkRequest ∧ linkIdFromLrPacket p = id ∧
    r.pre.route p = some (path, o, q) ∧ e = requestedLink p path i o now

/-- The step takes in an LRPROOF for the link `id`, on the responder's side of `e`, whose signature
verifies under the Ed25519 half of the key cached for the destination of `e`. -/
def Proves (id : Bytes) (r : Rec Transport Action) (e : LinkEntry) : Prop :=
  ∃ i wire now p pub, r.act = .inbound i wire now ∧ arriving wire = some p ∧
    p.packetType = .proof ∧ p.context = contextLrproof ∧ p.destinationHash = id ∧
    e.nhIf = some i ∧ r.pre.publicKeyFor e.dstHash = some pub ∧
    (p.data.length = 96 ∨ p.data.length = 99) ∧
    ed25519Verify (pub.slice 32 32) (p.data.slice 0 64)
      (id ++ p.data.slice 64 32 ++ pub.slice 32 32 ++ p.data.sliceFrom 96) = true

/-- The part of an entry that only its LINKREQUEST sets. -/
def LinkEntry.core (e : LinkEntry) : LinkEntry := { e with validated := false, lastActivityMs := 0 }

theorem Proves.congr {id : Bytes} {r : Rec Transport Action} {e e' : LinkEntry}
    (h : Proves id r e) (hc : e.core = e'.core) : Proves id r e' := by
  have hn : e.core.nhIf = e'.core.nhIf := by rw [hc]
  have hd : e.core.dstHash = e'.core.dstHash := by rw [hc]
  simp only [LinkEntry.core] at hn hd
  unfold Proves at h ⊢
  rwa [← hn, ← hd]

namespace Transport

theorem lrproofVerifies_eq_true {t : Transport} {e : LinkEntry} {p : Packet}
    (h : t.lrproofVerifies e p = true) :
    ∃ pub, t.publicKeyFor e.dstHash = some pub ∧ (p.data.length = 96 ∨ p.data.length = 99) ∧
      ed25519Verify (pub.slice 32 32) (p.data.slice 0 64)
        (p.destinationHash ++ p.data.slice 64 32 ++ pub.slice 32 32 ++ p.data.sliceFrom 96) =
        true := by
  unfold lrproofVerifies at h
  simp only at h
  split at h
  · cases h
  rename_i hlen
  have hlen : p.data.length = 96 ∨ p.data.length = 99 := by omega
  split at h
  · cases h
  rename_i pub hpub
  split at h
  · cases h
  refine ⟨pub, hpub, hlen, ?_⟩
  have hsig : p.data.sliceFrom 96 = if p.data.length = 99 then p.data.slice 96 3 else [] := by
    rcases hlen with hlen | hlen
    · rw [if_neg (by omega)]
      exact List.drop_eq_nil_of_le (by omega)
    · rw [if_pos hlen]
      exact (List.take_of_length_le ((List.length_drop ..).trans_le (by omega))).symm
  rw [hsig]
  exact h

theorem requests_core {id : Bytes} {r : Rec Transport Action} {e : LinkEntry}
    (h : Requests id r e) : e.validated = false ∧ e.linkId = id := by
  obtain ⟨i, o, wire, now, p, q, path, -, -, -, -, hid, -, rfl⟩ := h
  exact ⟨rfl, hid⟩

theorem requests_get {id : Bytes} {r : Rec Transport Action} {e : LinkEntry}
    (hstep : Steps r.pre r.act r.post) (h : Requests id r e) :
    r.post.linkTable.get id = some e := by
  obtain ⟨i, o, wire, now, p, q, path, ha, hw, hs, ht, hid, hr, rfl⟩ := h
  obtain ⟨s, hpost⟩ :=
    step_linkRequest (i := i) now hw hs (Packet.handler_eq_linkRequest.mpr ht) hr
  rw [ha] at hstep
  rw [Except.ok.inj (hstep.symm.trans hpost)]
  exact (LinkTable.get_put _ _ _).trans (if_pos hid.symm)

/-- A step that leaves the core `c` of an entry either wrote it or found it there. -/
theorem core_step {id : Bytes} {c : LinkEntry} {t t' : Transport} {a : Action}
    (h : t.step a = .ok t') (hc : ∃ e, t'.linkTable.get id = some e ∧ e.core = c) :
    (∃ e, Requests id ⟨t, a, t'⟩ e ∧ e.core = c) ∨
      ((∃ e, t.linkTable.get id = some e ∧ e.core = c) ∧ ∀ e, ¬ Requests id ⟨t, a, t'⟩ e) := by
  obtain ⟨e, he, rfl⟩ := hc
  by_cases hreq : ∃ e', Requests id ⟨t, a, t'⟩ e'
  · obtain ⟨e', hreq⟩ := hreq
    have hget := requests_get (r := ⟨t, a, t'⟩) h hreq
    cases hget.symm.trans he
    exact .inl ⟨_, hreq, rfl⟩
  · refine .inr ⟨?_, fun e' h => hreq ⟨e', h⟩⟩
    cases step_link h id with
    | keep hk => exact ⟨e, hk ▸ he, rfl⟩
    | request hw hs hk hr hid _ =>
      exact absurd ⟨_, _, _, _, _, _, _, _, rfl, hw, hs, Packet.handler_eq_linkRequest.mp hk, hid,
        hr, rfl⟩ hreq
    | proof _ _ _ hr hid hg =>
      obtain ⟨hget, -⟩ := provenLink_eq_some hr
      rw [hid] at hget
      cases hg.symm.trans he
      exact ⟨_, hget, rfl⟩
    | data _ _ _ hr hid _ hg =>
      obtain ⟨hget, -⟩ := linkRoute_eq_some hr
      rw [hid] at hget
      cases hg.symm.trans he
      exact ⟨_, hget, rfl⟩
    | close _ _ _ _ _ _ hg => cases hg.symm.trans he
    | lapse _ _ hg => cases hg.symm.trans he

/-- A step that leaves an entry validated either proved it or found it validated. -/
theorem validated_step {id : Bytes} {t t' : Transport} {a : Action} (h : t.step a = .ok t')
    (hv : ∃ e, t'.linkTable.get id = some e ∧ e.validated = true) :
    (∃ e, t.linkTable.get id = some e ∧ Proves id ⟨t, a, t'⟩ e) ∨
      ∃ e, t.linkTable.get id = some e ∧ e.validated = true := by
  obtain ⟨e, he, hv⟩ := hv
  cases step_link h id with
  | keep hk => exact .inr ⟨e, hk ▸ he, hv⟩
  | request _ _ _ _ _ hg => cases hg.symm.trans he; cases hv
  | @proof i f wire now p e' _ hw _ hk hr hid _ =>
    obtain ⟨hget, hnh, hver, -⟩ := provenLink_eq_some hr
    obtain ⟨ht, hctx⟩ := Packet.handler_eq_linkProof.mp hk
    obtain ⟨pub, hpub, hlen, hver⟩ := lrproofVerifies_eq_true hver
    rw [hid] at hget hver
    exact .inl ⟨e', hget, i, wire, now, p, pub, rfl, hw, ht, hctx, hid, hnh, hpub, hlen, hver⟩
  | data _ _ _ hr hid _ hg =>
    cases hg.symm.trans he
    obtain ⟨hget, -, -⟩ := linkRoute_eq_some hr
    rw [hid] at hget
    exact .inr ⟨_, hget, hv⟩
  | close _ _ _ _ _ _ hg => cases hg.symm.trans he
  | lapse _ _ hg => cases hg.symm.trans he

/-- The last request for the link `id` wrote the entry `e`, and the run proves `e` after it. -/
def ProvenSince (id : Bytes) (rs : List (Rec Transport Action)) (e : LinkEntry) : Prop :=
  ∃ before rq between pf after c, rs = before ++ rq :: (between ++ pf :: after) ∧
    Requests id rq c ∧ c.core = e.core ∧ Proves id pf e ∧
    ∀ r ∈ between ++ pf :: after, ∀ e', ¬ Requests id r e'

theorem provenSince_of_validated {id : Bytes} {e : LinkEntry} {t₀ t : Transport}
    {rs : List (Rec Transport Action)} (h₀ : t₀.linkTable.get id = none) (hrun : Run Steps t₀ rs t)
    (he : t.linkTable.get id = some e) (hv : e.validated = true) : ProvenSince id rs e := by
  obtain ⟨before, rq, later, rfl, ⟨c, hreq, hc⟩, hlater⟩ :=
    hrun.since (P := fun s => ∃ e', s.linkTable.get id = some e' ∧ e'.core = e.core)
      (Q := fun r => ∃ c, Requests id r c ∧ c.core = e.core)
      (N := fun r => ∀ e', ¬ Requests id r e') (by simp [h₀])
      (fun r hr hp => core_step hr hp) ⟨e, he, rfl⟩
  obtain ⟨-, hstep, hafter⟩ := hrun.split_at
  -- the request leaves the entry unvalidated
  have hpend : ¬ ∃ e', rq.post.linkTable.get id = some e' ∧ e'.validated = true := by
    rintro ⟨e', he', hv'⟩
    cases (requests_get hstep hreq).symm.trans he'
    rw [(requests_core hreq).1] at hv'
    cases hv'
  obtain ⟨between, pf, after, rfl, ⟨e', he', hproves⟩, -⟩ :=
    hafter.since (P := fun s => ∃ e', s.linkTable.get id = some e' ∧ e'.validated = true)
      (Q := fun r => ∃ e', r.pre.linkTable.get id = some e' ∧ Proves id r e')
      (N := fun _ => True) hpend
      (fun r hr hp => (validated_step hr hp).imp (fun h => h) fun h => ⟨h, trivial⟩) ⟨e, he, hv⟩
  refine ⟨before, rq, between, pf, after, c, rfl, hreq, hc, ?_, fun r hr => (hlater r hr).2⟩
  -- between the two the core of the entry does not change
  obtain ⟨⟨e'', he'', hcore⟩, -⟩ := hlater pf (List.mem_append_right _ (List.mem_cons_self ..))
  cases he'.symm.trans he''
  exact hproves.congr hcore

/-- In a run of a node, whenever link DATA is relayed it crosses an entry proven since its request;
so is every validated entry, and only an LRPROOF validates one. -/
theorem link_data_needs_proof {id₀ : Identity} {enabled : Bool} {cfg : IfaceId → Interface.Config}
    {rs : List (Rec Transport Action)} {t : Transport}
    (hrun : Run Steps (new id₀ enabled cfg) rs t) :
    (∀ before r after i wire now p o w, rs = before ++ r :: after → r.act = .inbound i wire now →
      arriving wire = some p → p.packetType = .data → .transmit .linkForward o w ∈ r.post.out →
      w = p.wireBytes ∧ ∃ e, r.pre.linkTable.get p.destinationHash = some e ∧ e.Opposite i o ∧
        ProvenSince p.destinationHash before e) ∧
    (∀ id e, t.linkTable.get id = some e → e.validated = true → ProvenSince id rs e) ∧
    ∀ r ∈ rs, ∀ id e, r.post.linkTable.get id = some e → e.validated = true →
      ∃ e', r.pre.linkTable.get id = some e' ∧ (e'.validated = true ∨ Proves id r e') := by
  refine ⟨?_, fun id e he hv => provenSince_of_validated rfl hrun he hv, ?_⟩
  · rintro before r after i wire now p o w rfl ha hw ht ho
    obtain ⟨hbefore, hstep, -⟩ := hrun.split_at
    rw [ha] at hstep
    obtain ⟨-, hwp, e, hr⟩ := linkRoute_of_transmit hstep hw ht ho
    obtain ⟨he, hv, hop⟩ := linkRoute_eq_some hr
    exact ⟨hwp, e, he, oppositeIf_eq_some hop, provenSince_of_validated rfl hbefore he hv⟩
  · intro r hr id e he hv
    rcases validated_step (hrun.step_of_mem hr) ⟨e, he, hv⟩ with ⟨e', he', hp⟩ | ⟨e', he', hv'⟩
    · exact ⟨e', he', .inr hp⟩
    · exact ⟨e', he', .inl hv'⟩

end Transport
end

namespace Transport
open Vectors
attribute [local instance] lib

/-- A keepalive over the link of the vectors, and what the run before it must contain. -/
theorem link_data_needs_proof_linkUp : ∃ rs t t' e, Run Steps relay rs t ∧
    t.step (.inbound 0 keepalive 303000) = .ok t' ∧
    .transmit .linkForward 1 keepalivePacket.wireBytes ∈ t'.out ∧
    t.linkTable.get linkId = some e ∧ e.Opposite 0 1 ∧ ProvenSince linkId rs e := by
  obtain ⟨t, hsteps, ht, hf⟩ :=
    reachable_of_steps (reachable_new bob true fun _ => cfg) linkUp_state
  obtain ⟨he, hf⟩ := Prod.mk.inj hf
  obtain ⟨hs, -⟩ := Prod.mk.inj hf
  obtain ⟨rs, hr, -⟩ := run_of_steps hsteps
  obtain ⟨o, s, ho, hstep⟩ := step_linkData (i := 0) 303000 ht.linkInv he rfl (.inl rfl)
    arriving_keepalive hs (by decide +kernel)
  obtain rfl : 1 = o := by
    rcases ho with ⟨-, ho⟩ | ⟨h, -⟩
    · exact Option.some.inj ho
    · exact absurd h (by decide)
  have hout := List.mem_singleton_self (Event.transmit .linkForward 1 keepalivePacket.wireBytes)
  obtain ⟨-, e, he', hop, hproven⟩ := (link_data_needs_proof (hr.snoc hstep)).1 rs _ [] 0 keepalive
    303000 keepalivePacket 1 keepalivePacket.wireBytes rfl rfl arriving_keepalive (by decide) hout
  exact ⟨rs, t, _, e, hr, hstep, hout, he', hop, hproven⟩

end Transport
end Reticulum
