import Reticulum.Rns.Transport.Run
import Reticulum.Rns.Vectors

/-!
# Proof receipts

A forwarded DATA packet leaves a reverse entry under its truncated hash; a forwarded PROOF takes one
away. An entry is a ticket for one proof in the opposite direction: it is issued by the DATA, and
overwriting or aging it can only lose it.
-/

namespace Reticulum
open Transport

/-- The direction of a DATA packet with the truncated hash `hash`: it arrived on `receivedIf` and
left on `outboundIf`. -/
structure Receipt where
  hash : Bytes
  receivedIf : IfaceId
  outboundIf : IfaceId

section
variable [CryptoLib]

/-- The step forwards a DATA packet in the direction `k`. -/
def ForwardsData (r : Rec Transport Action) (k : Receipt) : Prop :=
  ∃ wire now p w, r.act = .inbound k.receivedIf wire now ∧ arriving wire = some p ∧
    p.packetType = .data ∧ proofHash p = k.hash ∧
    .transmit .dataForward k.outboundIf w ∈ r.post.out

omit [CryptoLib] in
/-- The step forwards a PROOF, other than an LRPROOF, against the direction `k`. -/
def ForwardsProof (r : Rec Transport Action) (k : Receipt) : Prop :=
  ∃ wire now p w, r.act = .inbound k.outboundIf wire now ∧ arriving wire = some p ∧
    p.packetType = .proof ∧ p.context ≠ contextLrproof ∧ p.destinationHash = k.hash ∧
    .transmit .proofForward k.receivedIf w ∈ r.post.out

omit [CryptoLib] in
def Holds (t : Transport) (k : Receipt) : Prop :=
  ∃ e, t.reverseTable.get k.hash = some e ∧ e.receivedIf = some k.receivedIf ∧
    e.outboundIf = some k.outboundIf

namespace Transport

theorem data_of_transmit {t t' : Transport} {i o : IfaceId} {wire w : Bytes} {now : Nat}
    {p : Packet} (h : t.step (.inbound i wire now) = .ok t') (hw : arriving wire = some p)
    (ho : .transmit .dataForward o w ∈ t'.out) :
    t'.out = [.transmit .dataForward o w] ∧ p.handler = .data ∧
      t'.reverseTable = t.reverseTable.put ⟨proofHash p, some i, some o, now⟩ := by
  cases step_did h with
  | apart ha _ => cases ha
  | dropped _ => cases ho
  | took hw' _ hh =>
    cases hw.symm.trans hw'
    cases hh with
    | ignored _ => cases ho
    | announce _ _ hno => cases hno _ ho
    | pathRequest _ hno => cases hno _ ho
    | data hk _ => cases List.mem_singleton.mp ho; exact ⟨rfl, hk, rfl⟩
    | linkRequest _ _ => simp at ho
    | proof _ _ => simp at ho
    | linkProof _ _ => simp at ho
    | linkData _ _ => simp at ho

theorem proof_of_transmit {t t' : Transport} {i o : IfaceId} {wire w : Bytes} {now : Nat}
    {p : Packet} (h : t.step (.inbound i wire now) = .ok t') (hw : arriving wire = some p)
    (ho : .transmit .proofForward o w ∈ t'.out) :
    t'.out = [.transmit .proofForward o w] ∧
      (∃ e, t.reverseTable.get p.destinationHash = some e ∧ e.receivedIf = some o ∧
        e.outboundIf = some i) ∧
      t'.reverseTable = (t.reverseTable.pop p.destinationHash).2 := by
  cases step_did h with
  | apart ha _ => cases ha
  | dropped _ => cases ho
  | took hw' _ hh =>
    cases hw.symm.trans hw'
    cases hh with
    | ignored _ => cases ho
    | announce _ _ hno => cases hno _ ho
    | pathRequest _ hno => cases hno _ ho
    | data _ _ => simp at ho
    | linkRequest _ _ => simp at ho
    | @proof e _ _ hr =>
      obtain ⟨he, hi⟩ := Option.filter_eq_some_iff.mp hr
      cases hre : e.receivedIf with
      | none => simp [hre] at ho
      | some f =>
        rw [hre] at ho
        cases List.mem_singleton.mp ho
        exact ⟨rfl, ⟨e, he, hre, of_decide_eq_true hi⟩, rfl⟩
    | linkProof _ _ => simp at ho
    | linkData _ _ => simp at ho

/-- A reverse entry was there before the step, or the step is the DATA it stands for. -/
theorem step_reverse {t t' : Transport} {a : Action} (h : t.step a = .ok t') {x : Bytes}
    {e : ReverseEntry} (he : t'.reverseTable.get x = some e) :
    t.reverseTable.get x = some e ∨ ∃ i wire now p o w, a = .inbound i wire now ∧
      arriving wire = some p ∧ p.handler = .data ∧ proofHash p = x ∧
      .transmit .dataForward o w ∈ t'.out ∧ e = ⟨x, some i, some o, now⟩ := by
  cases step_did h with
  | apart _ hk => exact .inl (hk.reverseTable ▸ he)
  | dropped _ => exact .inl he
  | @took _ _ _ p _ hw _ hh =>
    cases hh with
    | ignored _ => exact .inl he
    | announce _ _ _ => exact .inl he
    | pathRequest _ _ => exact .inl he
    | data hk _ =>
      have hget := he
      rw [ReverseTable.get_put] at hget
      split at hget
      · rename_i hx
        subst hx
        cases hget
        exact .inr ⟨_, _, _, _, _, _, rfl, hw, hk, rfl, List.mem_singleton_self _, rfl⟩
      · exact .inl hget
    | linkRequest _ _ => exact .inl he
    | proof _ _ =>
      have hget := he
      rw [ReverseTable.get_pop] at hget
      split at hget
      · cases hget
      · exact .inl hget
    | linkProof _ _ => exact .inl he
    | linkData _ _ => exact .inl he
  | ticked _ =>
    have hget := he
    rw [ReverseTable.get_evictAged] at hget
    exact .inl (Option.filter_eq_some_iff.mp hget).1

omit [CryptoLib] in
/-- A call that transmits once took in one packet, and has sent it one way. -/
theorem eq_of_transmit_one {r : Rec Transport Action} {kind : TxKind} {i i' o o' : IfaceId}
    {wire wire' w w' : Bytes} {now now' : Nat} {p p' : Packet}
    (hone : r.post.out = [.transmit kind o w]) (ha : r.act = .inbound i wire now)
    (ha' : r.act = .inbound i' wire' now') (hw : arriving wire = some p)
    (hw' : arriving wire' = some p') (ho' : .transmit kind o' w' ∈ r.post.out) :
    p = p' ∧ i = i' ∧ o = o' := by
  cases ha.symm.trans ha'
  cases hw.symm.trans hw'
  rw [hone] at ho'
  cases List.mem_singleton.mp ho'
  exact ⟨rfl, rfl, rfl⟩

theorem forwardsData_unique {r : Rec Transport Action} {k k' : Receipt}
    (h : Steps r.pre r.act r.post) (hk : ForwardsData r k) (hk' : ForwardsData r k') : k = k' := by
  obtain ⟨x, i, o⟩ := k
  obtain ⟨x', i', o'⟩ := k'
  obtain ⟨wire, now, p, w, ha, hw, -, rfl, ho⟩ := hk
  obtain ⟨wire', now', p', w', ha', hw', -, rfl, ho'⟩ := hk'
  obtain ⟨hone, -⟩ := data_of_transmit (ha ▸ h) hw ho
  obtain ⟨rfl, rfl, rfl⟩ := eq_of_transmit_one hone ha ha' hw hw' ho'
  rfl

theorem forwardsProof_unique {r : Rec Transport Action} {k k' : Receipt}
    (h : Steps r.pre r.act r.post) (hk : ForwardsProof r k) (hk' : ForwardsProof r k') :
    k = k' := by
  obtain ⟨x, i, o⟩ := k
  obtain ⟨x', i', o'⟩ := k'
  obtain ⟨wire, now, p, w, ha, hw, -, -, rfl, ho⟩ := hk
  obtain ⟨wire', now', p', w', ha', hw', -, -, rfl, ho'⟩ := hk'
  obtain ⟨hone, -⟩ := proof_of_transmit (ha ▸ h) hw ho
  obtain ⟨rfl, rfl, rfl⟩ := eq_of_transmit_one hone ha ha' hw hw' ho'
  rfl

theorem forwardsProof_holds {r : Rec Transport Action} {k : Receipt}
    (h : Steps r.pre r.act r.post) (hk : ForwardsProof r k) : Holds r.pre k ∧ ¬ Holds r.post k := by
  obtain ⟨x, i, o⟩ := k
  obtain ⟨wire, now, p, w, ha, hw, -, -, rfl, ho⟩ := hk
  rw [ha] at h
  obtain ⟨-, hold, hrev⟩ := proof_of_transmit h hw ho
  refine ⟨hold, ?_⟩
  rintro ⟨e, he, -⟩
  rw [hrev, ReverseTable.get_pop, if_pos rfl] at he
  cases he

theorem holds_step {r : Rec Transport Action} {k : Receipt} (h : Steps r.pre r.act r.post)
    (hk : Holds r.post k) : ForwardsData r k ∨ Holds r.pre k := by
  obtain ⟨x, ri, oi⟩ := k
  obtain ⟨e, he, hr, ho⟩ := hk
  rcases step_reverse h he with hold | ⟨i, wire, now, p, o, w, ha, hw, hd, hx, hout, rfl⟩
  · exact .inr ⟨e, hold, hr, ho⟩
  · cases hr
    cases ho
    exact .inl ⟨wire, now, p, w, ha, hw, (Packet.handler_eq_data.mp hd).1, hx, hout⟩

/-- In a run of a node every forwarded proof answers a DATA packet of its own, forwarded earlier the
other way; so for no hash are there more proofs than DATA packets. -/
theorem receipts_answer_data {id₀ : Identity} {enabled : Bool} {cfg : IfaceId → Interface.Config}
    {rs : List (Rec Transport Action)} {t : Transport}
    (hrun : Run Steps (new id₀ enabled cfg) rs t) :
    (∃ f, Run.Matching ForwardsData ForwardsProof rs f) ∧
    (∀ x, (Run.positions rs fun r => ∃ k : Receipt, k.hash = x ∧ ForwardsProof r k).card ≤
      (Run.positions rs fun r => ∃ k : Receipt, k.hash = x ∧ ForwardsData r k).card) ∧
    ∀ before r after k, rs = before ++ r :: after → ForwardsProof r k →
      ∃ r' ∈ before, ForwardsData r' k := by
  obtain ⟨f, hf⟩ : ∃ f, Run.Matching ForwardsData ForwardsProof rs f := by
    refine hrun.matching (H := Holds) ?_ (fun r k k' => forwardsData_unique)
      (fun r k k' => forwardsProof_unique) (fun r k => forwardsProof_holds) fun r k => holds_step
    rintro k ⟨e, he, -⟩
    cases he
  refine ⟨⟨f, hf⟩, fun x => hf.card_le fun k => k.hash = x, ?_⟩
  rintro before r after k rfl hk
  obtain ⟨hlt, r', hr', hk'⟩ := hf.issued before.length r k (by simp) hk
  rw [List.getElem?_append_left hlt] at hr'
  exact ⟨r', List.mem_of_getElem? hr', hk'⟩

end Transport
end

namespace Transport
open Vectors
attribute [local instance] lib

theorem arriving_dataReceipt : arriving dataReceipt = some dataReceiptPacket := by decide +kernel

set_option maxRecDepth 100000 in
theorem dataForwarded_state :
    (relay.steps (heardAlice ++
      [.inbound 0 (dataVia bob.identityHash) 2000])).toOption.map (fun t =>
      (t.hasSeen dataReceiptPacket,
        (t.proofRoute 1 dataReceiptPacket).map ReverseEntry.receivedIf)) =
    some (false, some (some 0)) := by
  decide +kernel

/-- Alice's proof goes back to interface 0, where the run has brought the DATA from. -/
theorem receipts_answer_data_alice : ∃ rs t r r', Run Steps relay (rs ++ [r]) t ∧
    ForwardsProof r ⟨proofHash (dataPacket bob.identityHash rfl), 0, 1⟩ ∧ r' ∈ rs ∧
    ForwardsData r' ⟨proofHash (dataPacket bob.identityHash rfl), 0, 1⟩ := by
  obtain ⟨t, hsteps, -, hf⟩ :=
    reachable_of_steps (reachable_new bob true fun _ => cfg) dataForwarded_state
  obtain ⟨hs, hf⟩ := Prod.mk.inj hf
  obtain ⟨e, hr, he⟩ := Option.map_eq_some_iff.mp hf
  obtain ⟨rs, hrun, -⟩ := run_of_steps hsteps
  obtain ⟨t', hstep, hout⟩ : ∃ t', t.step (.inbound 1 dataReceipt 2500) = .ok t' ∧
      .transmit .proofForward 0 dataReceiptPacket.wireBytes ∈ t'.out := by
    obtain ⟨s, hstep⟩ := inbound_proof_of_proofRoute (i := 1) (t := { t with out := [] })
      2500 arriving_dataReceipt hs
      (Packet.handler_eq_proof.mpr ⟨by decide, by decide⟩) hr
    rw [he] at hstep
    exact ⟨_, hstep, List.mem_singleton_self _⟩
  have hproof : ForwardsProof ⟨t, .inbound 1 dataReceipt 2500, t'⟩
      ⟨proofHash (dataPacket bob.identityHash rfl), 0, 1⟩ :=
    ⟨dataReceipt, 2500, _, _, rfl, arriving_dataReceipt, by decide, by decide, rfl, hout⟩
  obtain ⟨r', hr', hdata⟩ := (receipts_answer_data (hrun.snoc hstep)).2.2 rs _ [] _ rfl hproof
  exact ⟨rs, t', _, r', hrun.snoc hstep, hproof, hr', hdata⟩

end Transport
end Reticulum
