import Reticulum.Rns.Transport.Run
import Reticulum.Rns.Vectors

/-!
# The life of a link entry

`step_link` lists what one call may do to the entry of one link. The invariants of the link table
and the results about established links are case analyses of it.
-/

namespace Reticulum

def LinkEntry.Opposite (e : LinkEntry) (i o : IfaceId) : Prop :=
  (e.rcvdIf = some i ∧ e.nhIf = some o) ∨ (e.nhIf = some i ∧ e.rcvdIf = some o)

def LinkEntry.Joins (e : LinkEntry) (i : IfaceId) : Prop := e.rcvdIf = some i ∨ e.nhIf = some i

namespace Transport
section
variable [CryptoLib]

omit [CryptoLib] in
theorem oppositeIf_eq_some {e : LinkEntry} {i o : IfaceId} (h : oppositeIf e i = some o) :
    e.Opposite i o := by
  unfold oppositeIf at h
  split at h
  · exact .inl ⟨‹some i = _›.symm, h⟩
  split at h
  · exact .inr ⟨‹some i = e.nhIf›.symm, h⟩
  · cases h

omit [CryptoLib] in
theorem oppositeIf_isSome {e : LinkEntry} {i : IfaceId} (hr : ∃ r, e.rcvdIf = some r)
    (hn : ∃ o, e.nhIf = some o) (hi : e.Joins i) : ∃ o, oppositeIf e i = some o := by
  obtain ⟨r, hr⟩ := hr
  obtain ⟨o, ho⟩ := hn
  by_cases hri : r = i
  · subst hri
    exact ⟨o, by simp [oppositeIf, hr, ho]⟩
  · have hn : e.nhIf = some i := hi.resolve_left fun h => hri (Option.some.inj (hr.symm.trans h))
    exact ⟨r, by simp [oppositeIf, hr, hn, Ne.symm hri]⟩

omit [CryptoLib] in
theorem linkRoute_eq_some {t : Transport} {i o : IfaceId} {p : Packet} {e : LinkEntry}
    (h : t.linkRoute i p = some (e, o)) :
    t.linkTable.get p.destinationHash = some e ∧ e.validated = true ∧ oppositeIf e i = some o := by
  obtain ⟨e', he', h⟩ := Option.bind_eq_some_iff.mp h
  obtain ⟨f, hf, h⟩ := Option.map_eq_some_iff.mp h
  cases h
  obtain ⟨he, hv⟩ := Option.filter_eq_some_iff.mp he'
  exact ⟨he, hv, hf⟩

theorem provenLink_eq_some {t : Transport} {i f : IfaceId} {p : Packet} {e : LinkEntry}
    (h : t.provenLink i p = some (e, f)) :
    t.linkTable.get p.destinationHash = some e ∧ e.nhIf = some i ∧
      t.lrproofVerifies e p = true ∧ e.rcvdIf = some f := by
  obtain ⟨e', he', h⟩ := Option.bind_eq_some_iff.mp h
  obtain ⟨f', hf, h⟩ := Option.map_eq_some_iff.mp h
  cases h
  obtain ⟨he, hv⟩ := Option.filter_eq_some_iff.mp he'
  obtain ⟨hn, hv⟩ := of_decide_eq_true hv
  exact ⟨he, hn, hv, hf⟩

omit [CryptoLib] in
theorem get_relayedLinks (t : Transport) (p : Packet) (now : Nat) (id : Bytes) :
    (t.relayedLinks p now).get id =
      if id = p.destinationHash then
        if p.context = contextLinkclose then none
        else (t.linkTable.get id).map fun e => { e with lastActivityMs := now }
      else t.linkTable.get id := by
  simp only [relayedLinks]
  split
  · simp only [LinkTable.get_remove, LinkTable.get_getMut]
    split <;> rfl
  · simp only [LinkTable.get_getMut]
    split
    · subst id; rfl
    · rfl

/-- What `evict_unproven` and `evict_stale` of a tick at `now` remove. -/
def lapsed (now : Nat) (e : LinkEntry) : Bool :=
  LinkTable.unproven now e ||
    (decide (linkStaleThresholdMs ≤ now) && LinkTable.stale (now - linkStaleThresholdMs) e)

omit [CryptoLib] in
theorem lapsed_validated {now : Nat} {e : LinkEntry} (h : e.validated = true) :
    lapsed now e = decide (e.lastActivityMs + linkStaleThresholdMs ≤ now) := by
  simp only [lapsed, LinkTable.unproven, LinkTable.stale, h, Bool.not_true, Bool.false_and,
    Bool.true_and, Bool.false_or, ← Bool.decide_and]
  exact decide_eq_decide.mpr (by omega)

omit [CryptoLib] in
theorem get_lapse (t : Transport) (now : Nat) (id : Bytes) :
    ((t.linkTable.evictUnproven now).2.evictStale now linkStaleThresholdMs).2.get id =
      (t.linkTable.get id).filter fun e => !lapsed now e := by
  rw [LinkTable.get_evictStale, LinkTable.get_evictUnproven]
  cases t.linkTable.get id with
  | none => rfl
  | some e =>
    simp only [Option.filter_some, lapsed, Bool.not_or]
    cases LinkTable.unproven now e <;> simp [Option.filter]

/-- How a call may change the entry of the link `id`. -/
inductive LinkStep (t : Transport) (id : Bytes) : Action → Transport → Prop
  | keep {a : Action} {t' : Transport} (h : t'.linkTable.get id = t.linkTable.get id) :
    LinkStep t id a t'
  | request {i o : IfaceId} {wire : Bytes} {now : Nat} {p q : Packet} {e : PathEntry}
    {t' : Transport} (hw : arriving wire = some p) (hs : t.hasSeen p = false)
    (hk : p.handler = .linkRequest) (hr : t.route p = some (e, o, q))
    (hid : linkIdFromLrPacket p = id)
    (h : t'.linkTable.get id = some (requestedLink p e i o now)) :
    LinkStep t id (.inbound i wire now) t'
  | proof {i f : IfaceId} {wire : Bytes} {now : Nat} {p : Packet} {e : LinkEntry} {t' : Transport}
    (hw : arriving wire = some p) (hs : t.hasSeen p = false) (hk : p.handler = .linkProof)
    (hr : t.provenLink i p = some (e, f)) (hid : p.destinationHash = id)
    (h : t'.linkTable.get id = some { e with validated := true, lastActivityMs := now }) :
    LinkStep t id (.inbound i wire now) t'
  | data {i f : IfaceId} {wire : Bytes} {now : Nat} {p : Packet} {e : LinkEntry} {t' : Transport}
    (hw : arriving wire = some p) (hs : t.hasSeen p = false) (hk : p.handler = .linkData)
    (hr : t.linkRoute i p = some (e, f)) (hid : p.destinationHash = id)
    (hc : p.context ≠ contextLinkclose)
    (h : t'.linkTable.get id = some { e with lastActivityMs := now }) :
    LinkStep t id (.inbound i wire now) t'
  | close {i f : IfaceId} {wire : Bytes} {now : Nat} {p : Packet} {e : LinkEntry} {t' : Transport}
    (hw : arriving wire = some p) (hs : t.hasSeen p = false) (hk : p.handler = .linkData)
    (hr : t.linkRoute i p = some (e, f)) (hid : p.destinationHash = id)
    (hc : p.context = contextLinkclose) (h : t'.linkTable.get id = none) :
    LinkStep t id (.inbound i wire now) t'
  | lapse {now : Nat} {e : LinkEntry} {t' : Transport} (he : t.linkTable.get id = some e)
    (hl : lapsed now e = true) (h : t'.linkTable.get id = none) : LinkStep t id (.tick now) t'

theorem step_link {t t' : Transport} {a : Action} (h : t.step a = .ok t') (id : Bytes) :
    LinkStep t id a t' := by
  cases step_did h with
  | apart _ hk => exact .keep (by rw [hk.linkTable])
  | dropped _ => exact .keep rfl
  | @took _ _ now p _ hw hs hh =>
    cases hh with
    | ignored _ => exact .keep rfl
    | announce _ _ _ => exact .keep rfl
    | pathRequest _ _ => exact .keep rfl
    | data _ _ => exact .keep rfl
    | linkRequest hk hr =>
      by_cases hid : id = linkIdFromLrPacket p
      · exact .request hw hs hk hr hid.symm ((LinkTable.get_put _ _ _).trans (if_pos hid))
      · exact .keep ((LinkTable.get_put _ _ _).trans (if_neg hid))
    | proof _ _ => exact .keep rfl
    | linkProof hk hr =>
      by_cases hid : id = p.destinationHash
      · refine .proof hw hs hk hr hid.symm ((LinkTable.get_getMut _ _ _ _).trans ?_)
        rw [if_pos hid, (provenLink_eq_some hr).1]
        rfl
      · exact .keep ((LinkTable.get_getMut _ _ _ _).trans (if_neg hid))
    | linkData hk hr =>
      have hget := get_relayedLinks t p now id
      by_cases hid : id = p.destinationHash
      · rw [if_pos hid] at hget
        by_cases hc : p.context = contextLinkclose
        · exact .close hw hs hk hr hid.symm hc (hget.trans (if_pos hc))
        · refine .data hw hs hk hr hid.symm hc (hget.trans ?_)
          rw [if_neg hc, hid, (linkRoute_eq_some hr).1]
          rfl
      · exact .keep (hget.trans (if_neg hid))
  | @ticked now _ _ _ _ _ _ =>
    have hget := get_lapse t now id
    cases he : t.linkTable.get id with
    | none => exact .keep (by simp only [hget, he, Option.filter_none])
    | some e =>
      rw [he, Option.filter_some] at hget
      cases hl : lapsed now e with
      | true => exact .lapse he hl (by simpa [hl] using hget)
      | false => exact .keep (by simpa [hl, he] using hget)

/-! ### Invariants -/

/-- Every entry is stored under its own id and names both its interfaces. -/
def LinkInv (t : Transport) : Prop :=
  ∀ id e, t.linkTable.get id = some e →
    e.linkId = id ∧ (∃ i, e.rcvdIf = some i) ∧ ∃ o, e.nhIf = some o

theorem linkInv_step {t t' : Transport} {a : Action} (hi : LinkInv t) (h : t.step a = .ok t') :
    LinkInv t' := by
  intro id e he
  cases step_link h id with
  | keep hk => exact hi id e (hk ▸ he)
  | request _ _ _ _ hid hg =>
    cases hg.symm.trans he
    exact ⟨hid, ⟨_, rfl⟩, _, rfl⟩
  | proof _ _ _ hr hid hg =>
    cases hg.symm.trans he
    have hold := hi id _ (hid ▸ (provenLink_eq_some hr).1)
    exact hold
  | data _ _ _ hr hid _ hg =>
    cases hg.symm.trans he
    have hold := hi id _ (hid ▸ (linkRoute_eq_some hr).1)
    exact hold
  | close _ _ _ _ _ _ hg => cases hg.symm.trans he
  | lapse _ _ hg => cases hg.symm.trans he

theorem Reachable.linkInv {t : Transport} (h : Reachable t) : LinkInv t :=
  h.inv (fun _ _ _ id e he => by cases he) fun _ _ _ => linkInv_step

theorem step_linkData {t : Transport} {i : IfaceId} {wire : Bytes} {p : Packet} {e : LinkEntry}
    (now : Nat) (hi : LinkInv t) (he : t.linkTable.get p.destinationHash = some e)
    (hv : e.validated = true) (hj : e.Joins i) (hw : arriving wire = some p)
    (hs : t.hasSeen p = false) (hk : p.handler = .linkData) :
    ∃ o s, e.Opposite i o ∧ t.step (.inbound i wire now) = .ok { t with
      stats := s
      hashlist := t.recorded p
      out := [.transmit .linkForward o p.wireBytes]
      linkTable := t.relayedLinks p now } := by
  obtain ⟨-, hr, hn⟩ := hi _ e he
  obtain ⟨o, ho⟩ := oppositeIf_isSome hr hn hj
  have hroute : t.linkRoute i p = some (e, o) := by simp [linkRoute, he, Option.filter, hv, ho]
  obtain ⟨s, h⟩ := inbound_linkData_of_linkRoute (t := { t with out := [] }) _ hw hs hk hroute
  exact ⟨o, s, oppositeIf_eq_some ho, h⟩

theorem step_linkRequest {t : Transport} {i o : IfaceId} {wire : Bytes} {p q : Packet}
    {e : PathEntry} (now : Nat) (hw : arriving wire = some p) (hs : t.hasSeen p = false)
    (hk : p.handler = .linkRequest) (hr : t.route p = some (e, o, q)) :
    ∃ s, t.step (.inbound i wire now) = .ok { t with
      stats := s
      hashlist := t.recorded p
      out := [.transmit .linkForward o
        (maybeClampLrSignalling q.wireBytes (t.iface o).hwMtuBytes)]
      linkTable := t.linkTable.put (requestedLink p e i o now) } :=
  inbound_linkRequest_of_route (t := { t with out := [] }) _ hw hs hk hr

theorem step_linkProof {t : Transport} {i f : IfaceId} {wire : Bytes} {p : Packet} {e : LinkEntry}
    (now : Nat) (hw : arriving wire = some p) (hs : t.hasSeen p = false)
    (hk : p.handler = .linkProof) (hr : t.provenLink i p = some (e, f)) :
    ∃ s, t.step (.inbound i wire now) = .ok { t with
      stats := s
      hashlist := t.recorded p
      out := [.transmit .linkForward f p.wireBytes]
      linkTable := t.linkTable.getMut p.destinationHash fun e =>
        { e with validated := true, lastActivityMs := now } } :=
  inbound_linkProof_of_provenLink (t := { t with out := [] }) _ hw hs hk hr

/-- Link traffic leaves a node only through an established entry. -/
theorem linkRoute_of_transmit {t t' : Transport} {i o : IfaceId} {wire w : Bytes} {now : Nat}
    {p : Packet} (h : t.step (.inbound i wire now) = .ok t') (hw : arriving wire = some p)
    (ht : p.packetType = .data) (ho : .transmit .linkForward o w ∈ t'.out) :
    t.hasSeen p = false ∧ w = p.wireBytes ∧ ∃ e, t.linkRoute i p = some (e, o) := by
  cases step_did h with
  | apart ha _ => cases ha
  | dropped _ => cases ho
  | took hw' hs hh =>
    cases hw.symm.trans hw'
    cases hh with
    | ignored _ => cases ho
    | announce _ _ hno => cases hno _ ho
    | pathRequest _ hno => cases hno _ ho
    | data _ _ => simp at ho
    | linkRequest hk _ => cases ht.symm.trans (Packet.handler_eq_linkRequest.mp hk)
    | proof hk _ => cases ht.symm.trans (Packet.handler_eq_proof.mp hk).1
    | linkProof hk _ => cases ht.symm.trans (Packet.handler_eq_linkProof.mp hk).1
    | linkData hk hr =>
      cases List.mem_singleton.mp ho
      exact ⟨hs, rfl, _, hr⟩

end

open Vectors in
attribute [local instance] lib in
set_option maxRecDepth 100000 in
theorem linkUp_state : (relay.steps linkUp).toOption.map (fun t =>
    (t.linkTable.get linkId, t.hasSeen keepalivePacket,
      (t.steps [.inbound 0 keepalive 303000, .tick 800000]).toOption.isSome)) =
    some (some (linkEntry 3000), false, true) := by
  decide +kernel

end Transport
end Reticulum
