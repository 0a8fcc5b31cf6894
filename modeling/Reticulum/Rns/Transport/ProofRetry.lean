import Reticulum.Rns.Transport.Links
import Reticulum.Rns.Transport.Receipts
import Reticulum.Rns.Transport.Retention

/-!
# A proof on the wrong interface

The handlers of proofs look at an entry before they take it, so that a proof on the wrong interface
leaves it for the genuine one. But `inbound` has recorded the hash by then: the same bytes on the
right interface are a duplicate.
-/

namespace Reticulum
namespace Transport

section
variable [CryptoLib]

/-- An entry is waiting for the proof `p` on `b`: a reverse entry, or a link entry whose
destination signed it. The proof goes back on `f`. -/
inductive Awaits (t : Transport) (b : IfaceId) (p : Packet) (f : IfaceId) : Prop
  | reverse {e : ReverseEntry} (hk : p.handler = .proof)
    (he : t.reverseTable.get p.destinationHash = some e) (ho : e.outboundIf = some b)
    (hr : e.receivedIf = some f) : Awaits t b p f
  | link {e : LinkEntry} (hk : p.handler = .linkProof)
    (he : t.linkTable.get p.destinationHash = some e) (hn : e.nhIf = some b)
    (hv : t.lrproofVerifies e p = true) (hr : e.rcvdIf = some f) : Awaits t b p f

/-- The call sends the proof back on `f`, and consumes the reverse entry or validates the link. -/
def Returns (t : Transport) (b : IfaceId) (wire : Bytes) (now : Nat) (p : Packet) (f : IfaceId) :
    Prop :=
  ∃ t', t.step (.inbound b wire now) = .ok t' ∧ t'.transmissions = [(f, p.wireBytes)] ∧
    if p.context = contextLrproof
    then ∃ e, t'.linkTable.get p.destinationHash = some e ∧ e.validated = true
    else t'.reverseTable.get p.destinationHash = none

variable {t t₁ t₂ : Transport} {b c f : IfaceId} {wire : Bytes} {now now₁ now₂ : Nat} {p : Packet}

theorem not_returns_of_hasSeen (hw : arriving wire = some p) (hs : t.hasSeen p = true) :
    ¬ Returns t b wire now p f := by
  rintro ⟨t', hstep, hout, -⟩
  obtain ⟨s, hstep'⟩ := step_of_hasSeen (t := t) (i := b) now hw hs
  cases hstep'.symm.trans hstep
  cases hout

theorem Awaits.returns (h : Awaits t b p f) (now : Nat) (hw : arriving wire = some p)
    (hs : t.hasSeen p = false) : Returns t b wire now p f := by
  cases h with
  | @reverse e hk he ho hr =>
    have hroute : t.proofRoute b p = some e :=
      Option.filter_eq_some_iff.mpr ⟨he, decide_eq_true ho⟩
    obtain ⟨s, hstep⟩ :=
      inbound_proof_of_proofRoute (i := b) (t := { t with out := [] }) now hw hs hk hroute
    refine ⟨_, hstep, ?_, ?_⟩
    · simp [transmissions, hr, Event.onAir]
    · rw [if_neg (Packet.handler_eq_proof.mp hk).2]
      exact (ReverseTable.get_pop _ _ _).trans (if_pos rfl)
  | @link e hk he hn hv hr =>
    have hfilter : (t.linkTable.get p.destinationHash).filter (fun e =>
        e.nhIf = some b ∧ t.lrproofVerifies e p) = some e :=
      Option.filter_eq_some_iff.mpr ⟨he, decide_eq_true ⟨hn, hv⟩⟩
    have hroute : t.provenLink b p = some (e, f) := by
      rw [provenLink, hfilter, Option.bind_some, hr, Option.map_some]
    obtain ⟨s, hstep⟩ :=
      inbound_linkProof_of_provenLink (i := b) (t := { t with out := [] }) now hw hs hk hroute
    refine ⟨_, hstep, ?_, ?_⟩
    · simp [transmissions, Event.onAir]
    · rw [if_pos (Packet.handler_eq_linkProof.mp hk).2]
      refine ⟨{ e with validated := true, lastActivityMs := now }, ?_, rfl⟩
      exact (LinkTable.get_getMut _ _ _ _).trans (by simp [he])

/-- Only a proof that is new and awaited is returned. -/
theorem Returns.awaits (h : Returns t b wire now p f) (hw : arriving wire = some p)
    (hp : p.packetType = .proof) : t.hasSeen p = false ∧ Awaits t b p f := by
  have hs : t.hasSeen p = false := by
    by_contra hs
    exact not_returns_of_hasSeen hw (eq_true_of_ne_false hs) h
  obtain ⟨t', hstep, hout, -⟩ := h
  refine ⟨hs, ?_⟩
  cases step_did hstep with
  | apart ha _ => cases ha
  | dropped _ => cases hout
  | took hw' _ hh =>
    cases hw.symm.trans hw'
    cases hh with
    | ignored _ => cases hout
    | announce hk _ _ => simp [Packet.handler_eq_announce, hp] at hk
    | pathRequest hk _ => simp [Packet.handler, hp] at hk; split at hk <;> cases hk
    | data hk _ => simp [Packet.handler_eq_data, hp] at hk
    | linkRequest hk _ => simp [Packet.handler_eq_linkRequest, hp] at hk
    | @proof e _ hk hr =>
      obtain ⟨he, hi⟩ := Option.filter_eq_some_iff.mp hr
      cases hre : e.receivedIf with
      | none => simp [transmissions, hre] at hout
      | some g =>
        simp only [transmissions, hre, Option.toList_some, List.map_cons, List.map_nil,
          List.filterMap_cons, Event.onAir, List.filterMap_nil] at hout
        obtain ⟨rfl, -⟩ := Prod.mk.inj (List.cons.inj hout).1
        exact .reverse hk he (of_decide_eq_true hi) hre
    | @linkProof e g _ hk hr =>
      obtain ⟨he, hn, hv, hf⟩ := provenLink_eq_some hr
      simp only [transmissions, List.filterMap_cons, Event.onAir, List.filterMap_nil] at hout
      obtain ⟨rfl, -⟩ := Prod.mk.inj (List.cons.inj hout).1
      exact .link hk he hn hv hf
    | linkData hk _ => simp [Packet.handler_eq_linkData, hp] at hk

/-- On another interface the proof leaves the entry as it was, and its hash in the list. -/
theorem Awaits.step_wrong_interface (h : Awaits t b p f) (now : Nat)
    (hw : arriving wire = some p) (hs : t.hasSeen p = false) (hne : c ≠ b) :
    ∃ s, t.step (.inbound c wire now) =
      .ok { t with stats := s, hashlist := t.recorded p, out := [] } := by
  cases h with
  | @reverse e hk he ho hr =>
    have hroute : t.proofRoute c p = none := by
      rw [proofRoute, he, Option.filter_some, ho]
      simp [hne.symm]
    exact inbound_proof_of_proofRoute_none (t := { t with out := [] }) now hw hs hk hroute
  | @link e hk he hn hv hr =>
    have hroute : t.provenLink c p = none := by
      rw [provenLink, he, Option.filter_some, hn]
      simp [hne.symm]
    exact inbound_linkProof_of_provenLink_none (t := { t with out := [] }) now hw hs hk hroute

theorem Awaits.frame (h : Awaits t b p f) {s : Counter → Nat} {l : PacketHashList}
    {o : List Event} : Awaits { t with stats := s, hashlist := l, out := o } b p f := by
  cases h with
  | reverse hk he ho hr => exact .reverse hk he ho hr
  | link hk he hn hv hr => exact .link hk he hn hv hr

/-- The copy on the wrong interface leaves the entry waiting; but while it waits, the proof is
returned only once its hash is out of the hash list, half a million packets later. -/
theorem proof_after_wrong_interface (ht : Reachable t) (hw : arriving wire = some p)
    (hp : p.packetType = .proof) (hret : Returns t b wire now p f) (hne : c ≠ b)
    (h₁ : t.step (.inbound c wire now₁) = .ok t₁) :
    Awaits t₁ b p f ∧ ∀ rs t₂ now₂, Run Steps t₁ rs t₂ → Awaits t₂ b p f →
      (Returns t₂ b wire now₂ p f ↔ t₂.hasSeen p = false) ∧
      (t₂.hasSeen p = false → 500001 ≤ ((recordedHashes rs).erase (dedupHash p)).card) := by
  obtain ⟨hs, hawait⟩ := hret.awaits hw hp
  have hawait₁ : Awaits t₁ b p f := by
    obtain ⟨s, hstep⟩ := hawait.step_wrong_interface now₁ hw hs hne
    cases hstep.symm.trans h₁
    exact hawait.frame
  refine ⟨hawait₁, fun rs t₂ now₂ hrun hawait₂ => ⟨⟨?_, ?_⟩, ?_⟩⟩
  · intro hret₂
    exact (hret₂.awaits hw hp).1
  · exact hawait₂.returns now₂ hw
  · intro hs₂
    by_contra hfew
    have hseen := hasSeen_of_run ht.hashlistInv hw hs h₁ hrun (by omega)
    rw [hs₂] at hseen
    cases hseen

end

open Vectors
attribute [local instance] lib

/-- The receipt of the vectors, on the interface the DATA left on and on the one it came from. -/
theorem dataReceipt_awaited : ∃ t, Reachable t ∧ t.hasSeen dataReceiptPacket = false ∧
    Awaits t 1 dataReceiptPacket 0 := by
  obtain ⟨t, -, ht, hf⟩ :=
    reachable_of_steps (reachable_new bob true fun _ => cfg) dataForwarded_state
  obtain ⟨hs, hf⟩ := Prod.mk.inj hf
  obtain ⟨e, hr, he⟩ := Option.map_eq_some_iff.mp hf
  obtain ⟨hget, hi⟩ := Option.filter_eq_some_iff.mp hr
  have hk : dataReceiptPacket.handler = .proof :=
    Packet.handler_eq_proof.mpr ⟨by decide, by decide⟩
  exact ⟨t, ht, hs, .reverse hk hget (of_decide_eq_true hi) he⟩

theorem proof_after_wrong_interface_receipt : ∃ t t₁, Reachable t ∧
    t.step (.inbound 0 dataReceipt 2500) = .ok t₁ ∧ Awaits t₁ 1 dataReceiptPacket 0 ∧
    ¬ Returns t₁ 1 dataReceipt 2501 dataReceiptPacket 0 := by
  obtain ⟨t, ht, hs, hawait⟩ := dataReceipt_awaited
  have hret := hawait.returns 2500 arriving_dataReceipt hs
  have hne : (0 : IfaceId) ≠ 1 := by decide
  obtain ⟨s, h₁⟩ := hawait.step_wrong_interface 2500 arriving_dataReceipt hs hne
  obtain ⟨hawait₁, hlater⟩ :=
    proof_after_wrong_interface ht arriving_dataReceipt (by decide) hret hne h₁
  obtain ⟨hiff, hfew⟩ := hlater [] _ 2501 .nil hawait₁
  refine ⟨t, _, ht, h₁, hawait₁, ?_⟩
  intro hret₂
  have hmany := hfew (hiff.mp hret₂)
  simp [recordedHashes] at hmany

/-- The receipt is heard on the wrong interface first, and lost on the right one. -/
theorem dataReceipt_lost : ¬ ∀ {t t₁ : Transport} {b c f : IfaceId} {wire : Bytes}
    {now now₁ now₂ : Nat} {p : Packet}, Reachable t → arriving wire = some p →
    p.packetType = .proof → Returns t b wire now p f → c ≠ b →
    t.step (.inbound c wire now₁) = .ok t₁ → Awaits t₁ b p f → Returns t₁ b wire now₂ p f := by
  intro hgenuine
  obtain ⟨t, ht, hs, hawait⟩ := dataReceipt_awaited
  have hret := hawait.returns 2500 arriving_dataReceipt hs
  have hne : (0 : IfaceId) ≠ 1 := by decide
  obtain ⟨s, h₁⟩ := hawait.step_wrong_interface 2500 arriving_dataReceipt hs hne
  have hret₂ : Returns { t with stats := s, hashlist := t.recorded dataReceiptPacket, out := [] } 1
      dataReceipt 2501 dataReceiptPacket 0 :=
    hgenuine ht arriving_dataReceipt (by decide) hret hne h₁ hawait.frame
  refine not_returns_of_hasSeen arriving_dataReceipt ?_ hret₂
  exact (contains_recorded t _ _).trans (by simp)

end Transport
end Reticulum
