import Reticulum.Rns.Transport.Links

/-!
# Packets of an established link

`LinkTable.h` promises that every later packet of a link goes by its entry. `inbound` looks at the
link table for DATA and for LRPROOF only; any other PROOF is taken for a receipt and looked up among
the reverse entries, so the proofs the two ends of a link exchange are dropped.
-/

namespace Reticulum
open Transport

section
variable [CryptoLib]

/-- The link `id` with entry `e` carries the packet `p`, read from `wire`, from `i` to the other
interface; a LINKCLOSE refreshes the clock of the entry it then removes. -/
def Carries (t : Transport) (id : Bytes) (e : LinkEntry) (i : IfaceId) (wire : Bytes) (p : Packet)
    (now : Nat) : Prop :=
  ∃ t' o, t.step (.inbound i wire now) = .ok t' ∧ e.Opposite i o ∧
    t'.transmissions = [(o, bumpHops wire)] ∧
    (t'.linkTable.get id = some { e with lastActivityMs := now } ∨
      p.packetType = .data ∧ p.context = contextLinkclose ∧ t'.linkTable.get id = none)

namespace Transport
variable {t : Transport} {id : Bytes} {e : LinkEntry} {i : IfaceId} {wire : Bytes} {p : Packet}

theorem carries_linkData (now : Nat) (hi : LinkInv t) (he : t.linkTable.get id = some e)
    (hv : e.validated = true) (hj : e.Joins i) (hw : arriving wire = some p)
    (hd : p.destinationHash = id) (hk : p.handler = .linkData) (hs : t.hasSeen p = false) :
    Carries t id e i wire p now := by
  obtain ⟨o, s, ho, hstep⟩ := step_linkData now hi (hd ▸ he) hv hj hw hs hk
  refine ⟨_, o, hstep, ho, congrArg (fun w => [(o, w)]) (arriving_hops hw), ?_⟩
  have hget := get_relayedLinks t p now id
  rw [if_pos hd.symm, he] at hget
  by_cases hc : p.context = contextLinkclose
  · rw [if_pos hc] at hget
    exact .inr ⟨(Packet.handler_eq_linkData.mp hk).1, hc, hget⟩
  · rw [if_neg hc] at hget
    exact .inl hget

theorem carries_proof_iff (now : Nat) (he : t.linkTable.get id = some e)
    (hw : arriving wire = some p) (hk : p.handler = .proof) (hs : t.hasSeen p = false) :
    Carries t id e i wire p now ↔ e.lastActivityMs = now ∧
      ∃ re o, t.proofRoute i p = some re ∧ re.receivedIf = some o ∧ e.Opposite i o := by
  have hdata : p.packetType ≠ .data := by simp [(Packet.handler_eq_proof.mp hk).1]
  have hclock : t.linkTable.get id = some { e with lastActivityMs := now } ↔
      e.lastActivityMs = now := by
    rw [he]
    exact ⟨fun h => congrArg LinkEntry.lastActivityMs (Option.some.inj h), fun h => by rw [← h]⟩
  cases hr : t.proofRoute i p with
  | none =>
    obtain ⟨s, h⟩ := inbound_proof_of_proofRoute_none (i := i) (t := { t with out := [] })
      now hw hs hk hr
    refine iff_of_false ?_ (by simp)
    rintro ⟨t', o, hstep, -, htx, -⟩
    cases h.symm.trans hstep
    cases htx
  | some re =>
    obtain ⟨s, h⟩ := inbound_proof_of_proofRoute (i := i) (t := { t with out := [] })
      now hw hs hk hr
    constructor
    · rintro ⟨t', o, hstep, ho, htx, hlink⟩
      cases h.symm.trans hstep
      refine ⟨hclock.mp (hlink.resolve_right fun h => hdata h.1), re, o, rfl, ?_, ho⟩
      cases hre : re.receivedIf with
      | none => rw [hre] at htx; cases htx
      | some f =>
        rw [hre] at htx
        exact congrArg some (List.singleton_inj.mp (congrArg (List.map Prod.fst) htx))
    · rintro ⟨hnow, re', o, hre', hro, ho⟩
      cases hre'
      refine ⟨_, o, h, ho, ?_, .inl (hclock.mpr hnow)⟩
      rw [hro, ← arriving_hops hw]
      rfl

/-- A new packet of an established link is carried by its entry exactly when it is DATA, or is a
proof that some reverse entry under the link id happens to send the same way, at the very time the
entry was last active. -/
theorem carries_iff (now : Nat) (ht : Reachable t) (he : t.linkTable.get id = some e)
    (hv : e.validated = true) (hn : id ≠ pathRequestDestinationHash) (hj : e.Joins i)
    (hw : arriving wire = some p) (hdt : p.destinationType = .link) (hd : p.destinationHash = id)
    (hp : p.packetType = .data ∨ p.packetType = .proof ∧ p.context ≠ contextLrproof)
    (hs : t.hasSeen p = false) :
    Carries t id e i wire p now ↔ p.packetType = .data ∨ e.lastActivityMs = now ∧
      ∃ re o, t.proofRoute i p = some re ∧ re.receivedIf = some o ∧ e.Opposite i o := by
  rcases hp with hp | hp
  · have hk := Packet.handler_eq_linkData.mpr ⟨hp, hd ▸ hn, hdt⟩
    exact iff_of_true (carries_linkData now ht.linkInv he hv hj hw hd hk hs) (.inl hp)
  · rw [carries_proof_iff now he hw (Packet.handler_eq_proof.mpr hp) hs]
    have hdata : p.packetType ≠ .data := by simp [hp.1]
    simp only [hdata, false_or]

end Transport
end

namespace Transport
open Vectors
attribute [local instance] lib

/-- A keepalive is carried by the link of the vectors. -/
theorem carries_iff_keepalive : ∃ t, Reachable t ∧
    Carries t linkId (linkEntry 3000) 0 keepalive keepalivePacket 303000 := by
  obtain ⟨t, -, ht, hf⟩ := reachable_of_steps (reachable_new bob true fun _ => cfg) linkUp_state
  obtain ⟨he, hf⟩ := Prod.mk.inj hf
  obtain ⟨hs, -⟩ := Prod.mk.inj hf
  exact ⟨t, ht, (carries_iff 303000 ht he rfl linkId_ne_pathRequest (.inl rfl) arriving_keepalive
    (by decide) rfl (.inl (by decide)) hs).mpr (.inl (by decide))⟩

set_option maxRecDepth 100000 in
theorem linkUp_receipt_state : (relay.steps linkUp).toOption.map (fun t =>
    (t.linkTable.get linkId, t.hasSeen linkReceiptPacket,
      (t.proofRoute 1 linkReceiptPacket).isSome)) =
    some (some (linkEntry 3000), false, false) := by
  decide +kernel

/-- The link of the vectors does not carry a proof. -/
theorem linkReceipt_not_carried : ∃ t, Reachable t ∧
    t.linkTable.get linkId = some (linkEntry 3000) ∧ (linkEntry 3000).validated = true ∧
    linkId ≠ pathRequestDestinationHash ∧ (linkEntry 3000).Joins 1 ∧
    arriving linkReceipt = some linkReceiptPacket ∧ linkReceiptPacket.destinationType = .link ∧
    linkReceiptPacket.destinationHash = linkId ∧ linkReceiptPacket.packetType = .proof ∧
    linkReceiptPacket.context ≠ contextLrproof ∧ t.hasSeen linkReceiptPacket = false ∧
    ¬ Carries t linkId (linkEntry 3000) 1 linkReceipt linkReceiptPacket 4000 := by
  obtain ⟨t, -, ht, hf⟩ :=
    reachable_of_steps (reachable_new bob true fun _ => cfg) linkUp_receipt_state
  obtain ⟨he, hf⟩ := Prod.mk.inj hf
  obtain ⟨hs, hr⟩ := Prod.mk.inj hf
  have hw : arriving linkReceipt = some linkReceiptPacket := by decide +kernel
  refine ⟨t, ht, he, rfl, linkId_ne_pathRequest, .inr rfl, hw, by decide, rfl, by decide, by decide,
    hs, ?_⟩
  rw [carries_proof_iff 4000 he hw (by decide +kernel) hs]
  rintro ⟨-, re, o, hre, -⟩
  rw [hre] at hr
  cases hr

end Transport
end Reticulum
