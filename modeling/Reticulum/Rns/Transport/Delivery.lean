import Reticulum.Rns.Transport.Propagation
import Reticulum.Rns.Transport.Receipts

/-!
# Delivery along a line

Once an announce has come down a line, DATA goes up it to the destination: every relay's path leads
to the next one, and no relay touches what the packet hash covers. So all of them file the return
route under the hash that the destination computes, and its proof finds the way back.
-/

namespace Reticulum
open Transport

section
variable [CryptoLib]

namespace Relay

/-- What a relay is after the packet `p`. -/
structure Carried (p : Packet) (n n' : Relay) : Prop where
  left : n'.left = n.left
  right : n'.right = n.right
  now : n'.now = n.now
  unseen : ∀ q, n.node.hasSeen q = false → dedupHash q ≠ dedupHash p → n'.node.hasSeen q = false

theorem unseen_of_recorded {n : Relay} {t : Transport} {p q : Packet}
    (ht : t.hashlist = n.node.recorded p) (hq : n.node.hasSeen q = false)
    (hne : dedupHash q ≠ dedupHash p) : t.hasSeen q = false := by
  rw [hasSeen, ht, contains_recorded, hq]
  simpa using hne

theorem data_right {n : Relay} {d : Bytes} {ns : List Relay} {p : Packet}
    (hlead : n.LeadsTo d (headId ns)) (hd : p.destinationHash = d)
    (hp : AddressedTo (some n.id) p) (hk : p.handler = .data) (hs : n.node.hasSeen p = false) :
    ∃ n', ∃ q : Packet, n.Right p.wireBytes n' q.wireBytes ∧ n.Carried p n' ∧
      n'.node.reverseTable.get (proofHash p) =
        some ⟨proofHash p, some n.left, some n.right, n.now⟩ ∧
      q.hashablePart = p.hashablePart ∧ AddressedTo (headId ns) q := by
  have hpart := p.bumped_hashablePart
  have hhash : dedupHash p.bumped = dedupHash p := by rw [dedupHash, hpart, dedupHash]
  have hproof : proofHash p.bumped = proofHash p := by rw [proofHash, hhash, proofHash]
  obtain ⟨e, q, hr, hq, hto⟩ := hlead.route (p := p.bumped) hd hp
  obtain ⟨s, hstep⟩ := step_data (i := n.left) n.now (arriving_wireBytes p)
    ((hasSeen_congr n.node hpart).trans hs) hk hr
  refine ⟨_, q, ⟨_, hstep, rfl, rfl⟩, ⟨rfl, rfl, rfl, fun q hq hne => ?_⟩, ?_, hq.trans hpart, hto⟩
  · exact unseen_of_recorded (p := p.bumped) rfl hq (hhash ▸ hne)
  · rw [← hproof]
    exact (ReverseTable.get_put _ _ _).trans (if_pos rfl)

theorem proof_left {n : Relay} {p : Packet} {e : ReverseEntry}
    (he : n.node.reverseTable.get p.destinationHash = some e) (hl : e.receivedIf = some n.left)
    (hr : e.outboundIf = some n.right) (hk : p.handler = .proof) (hs : n.node.hasSeen p = false) :
    ∃ n', n.Left p.wireBytes n' p.bumped.wireBytes := by
  have hroute : n.node.proofRoute n.right p.bumped = some e := by
    rw [Transport.proofRoute, p.bumped_destinationHash, he, Option.filter_some,
      if_pos (decide_eq_true hr)]
  obtain ⟨s, hstep⟩ := inbound_proof_of_proofRoute (t := { n.node with out := [] }) n.now
    (arriving_wireBytes p) ((hasSeen_congr n.node p.bumped_hashablePart).trans hs) hk hroute
  rw [hl] at hstep
  exact ⟨_, _, hstep, rfl, rfl⟩

end Relay

/-- DATA for `d` goes up a line of paths to it, and leaves a return route at every relay. -/
theorem data_rightward {d : Bytes} {ns : List Relay} {data : Packet} (hlead : PathsLead d ns)
    (hd : data.destinationHash = d) (hto : AddressedTo (headId ns) data)
    (hk : data.handler = .data) (hs : ∀ n ∈ ns, n.node.hasSeen data = false) :
    ∃ ns', ∃ received : Packet, Rightward Relay.Right ns data.wireBytes ns' received.wireBytes ∧
      List.Forall₂ (fun n n' => n.Carried data n' ∧ n'.node.reverseTable.get (proofHash data) =
        some ⟨proofHash data, some n.left, some n.right, n.now⟩) ns ns' ∧
      received.headerType = .header1 ∧ received.hashablePart = data.hashablePart := by
  obtain ⟨ns', w, hright, hall, q, rfl, hq, hto, -, -⟩ := Rightward.exists_of (R := Relay.Right)
    (I := fun ns w => ∃ q : Packet, w = q.wireBytes ∧ q.hashablePart = data.hashablePart ∧
      AddressedTo (headId ns) q ∧ PathsLead d ns ∧ ∀ n ∈ ns, n.node.hasSeen data = false)
    (P := fun n n' => n.Carried data n' ∧ n'.node.reverseTable.get (proofHash data) =
      some ⟨proofHash data, some n.left, some n.right, n.now⟩)
    (fun n ns w hI => by
      obtain ⟨q, rfl, hq, hto, ⟨hlead, hrest⟩, hs⟩ := hI
      obtain ⟨hlow, hqd, hqc, -⟩ := Packet.hashablePart_eq_iff.mp hq
      have hqk : q.handler = .data := (Packet.handler_congr hlow hqd hqc).trans hk
      have hhash : dedupHash q = dedupHash data := by rw [dedupHash, hq, dedupHash]
      obtain ⟨n', q', hright, hc, hrev, hq', hto'⟩ := Relay.data_right hlead (hqd.trans hd) hto hqk
        ((hasSeen_congr n.node hq).trans (hs n (List.mem_cons_self ..)))
      refine ⟨n', q'.wireBytes, hright, ⟨⟨hc.left, hc.right, hc.now, fun p hp hne =>
        hc.unseen p hp (hhash ▸ hne)⟩, ?_⟩, q', rfl, hq'.trans hq, hto', hrest,
        fun m hm => hs m (List.mem_cons_of_mem _ hm)⟩
      rw [proofHash, hhash] at hrev
      exact hrev)
    ⟨data, rfl, rfl, hto, hlead, hs⟩
  exact ⟨ns', q, hright, hall, hto.1 rfl, hq⟩

/-- A proof comes down a line of return routes for it. -/
theorem proof_leftward {ns : List Relay} {proof : Packet} (hk : proof.handler = .proof)
    (hs : ∀ n ∈ ns, n.node.hasSeen proof = false)
    (hroutes : ∀ n ∈ ns, ∃ e, n.node.reverseTable.get proof.destinationHash = some e ∧
      e.receivedIf = some n.left ∧ e.outboundIf = some n.right) :
    ∃ ns', ∃ returned : Packet, Leftward Relay.Left ns proof.wireBytes ns' returned.wireBytes ∧
      returned.hashablePart = proof.hashablePart := by
  obtain ⟨ns', w, hleft, -, q, rfl, hq⟩ := Leftward.exists_of (R := Relay.Left)
    (C := fun n => n.node.hasSeen proof = false ∧
      ∃ e, n.node.reverseTable.get proof.destinationHash = some e ∧
        e.receivedIf = some n.left ∧ e.outboundIf = some n.right)
    (J := fun w => ∃ q : Packet, w = q.wireBytes ∧ q.hashablePart = proof.hashablePart)
    (P := fun _ _ => True)
    (fun n w hC hJ => by
      obtain ⟨hs, e, he, hl, hr⟩ := hC
      obtain ⟨q, rfl, hq⟩ := hJ
      obtain ⟨hlow, hqd, hqc, -⟩ := Packet.hashablePart_eq_iff.mp hq
      obtain ⟨n', hleft⟩ := Relay.proof_left (p := q) (hqd ▸ he) hl hr
        ((Packet.handler_congr hlow hqd hqc).trans hk) ((hasSeen_congr n.node hq).trans hs)
      exact ⟨n', _, hleft, trivial, q.bumped, rfl, q.bumped_hashablePart.trans hq⟩)
    (fun n hn => ⟨hs n hn, hroutes n hn⟩) ⟨proof, rfl, rfl⟩
  exact ⟨ns', q, hleft, hq⟩

theorem announce_of_buildAnnounce (hv : VerifiesOwn) {priv appName : Bytes} {ident : Identity}
    {d : Destination} (hident : Identity.fromPrivateBytes priv = .ok ident)
    (hdest : Destination.new ident appName = .ok d) {randomPrefix appData ratchetPub : Bytes}
    {timestampSecs : Nat} {pathResponse : Bool} {announce : Packet}
    (hbuild : d.buildAnnounce randomPrefix timestampSecs appData ratchetPub pathResponse =
      .ok announce.wireBytes) :
    announce.packetType = .announce ∧ announce.headerType = .header1 ∧ announce.hops = 0 ∧
      ∃ va, Identity.validateAnnounce announce = some va ∧
        va.destinationHash = d.destinationHash ∧ va.publicKey = ident.publicKey := by
  have hi : d.identity = ident := by
    obtain ⟨_, -, h⟩ := bind_eq_ok hdest
    cases h
    rfl
  have hgenuine := Destination.genuine_of_new (Identity.genuine_of_fromPrivateBytes hident) hdest
  obtain ⟨p, hp, h1, hhops, ht, -, -, hval⟩ :=
    Destination.validateAnnounce_of_buildAnnounce hv hgenuine hbuild
  obtain rfl := Packet.wireBytes_injective hp
  exact ⟨ht, h1, hhops, _, hval, rfl, congrArg Identity.publicKey hi⟩

/-- Where an announce has come down a line, and the paths have been kept since, they lead to the
announced destination. What was new to the line still is, but for the announce. -/
theorem pathsLead_of_announce {va : ValidatedAnnounce} {announce : Packet}
    (hval : Identity.validateAnnounce announce = some va) (ht : announce.packetType = .announce)
    (horigin : announce.headerType = .header1 ∧ announce.hops = 0) {n n₁ : Relay}
    {ns ns₁ ns₂ : List Relay} {w : Bytes}
    (hfresh : ∀ m ∈ n :: ns, m.Unaware va.destinationHash va.publicKey announce)
    (hpass : Leftward (Relay.PassesOn va.destinationHash) ns announce.wireBytes ns₁ w)
    (hhear : n.Hears w n₁) (hwait : List.Forall₂ (Relay.Waits pathLifeMs) (n₁ :: ns₁) ns₂) :
    PathsLead va.destinationHash ns₂ ∧ headId ns₂ = some n.id ∧
      ∀ p : Packet, (∀ m ∈ n :: ns, m.node.hasSeen p = false) →
        dedupHash p ≠ dedupHash announce → ∀ m ∈ ns₂, m.node.hasSeen p = false := by
  obtain ⟨q, rfl, hq, hlearned, hlead⟩ := Relay.learned_of_leftward hval ht horigin
    (fun m hm => hfresh m (List.mem_cons_of_mem _ hm)) hpass
  obtain ⟨hl, hleads, -⟩ := (hfresh n (List.mem_cons_self ..)).hears hq hval ht hhear
  have hall := List.Forall₂.cons hl hlearned
  have hids : headId ns₁ = headId ns := by
    cases hlearned with
    | nil => rfl
    | cons hm _ => exact congrArg some hm.id
  have hlead₁ : PathsLead va.destinationHash (n₁ :: ns₁) := ⟨hids ▸ hleads, hlead⟩
  have hexpires : ∀ m ∈ n₁ :: ns₁, ∀ e, m.node.paths.get va.destinationHash = some e →
      m.now + pathLifeMs ≤ e.expiresMs := by
    refine forall_right_of_forall₂ hall fun m m' hm e he => ?_
    rw [hm.expires e he, hm.now]
  refine ⟨hlead₁.waits hwait hexpires, ?_, ?_⟩
  · cases hwait with
    | cons hm _ => exact congrArg some (hm.id.trans hl.id)
  · intro p hp hne
    have hp₁ : ∀ m ∈ n₁ :: ns₁, m.node.hasSeen p = false :=
      forall_of_forall₂ hall hp fun m m' hm h => hm.unseen p h hne
    exact forall_of_forall₂ hwait hp₁ fun m m' hm h => hm.hasSeen h

/-- The proof of DATA that a line has just carried comes back down the line. -/
theorem proof_returns {data proof : Packet} {ns ns₁ ns₂ : List Relay}
    (hcarried : List.Forall₂ (fun n n' => n.Carried data n' ∧
      n'.node.reverseTable.get (proofHash data) =
        some ⟨proofHash data, some n.left, some n.right, n.now⟩) ns ns₁)
    (hwait : List.Forall₂ (Relay.Waits ReverseTable.reverseTimeoutMs) ns₁ ns₂)
    (hk : proof.handler = .proof) (hd : proof.destinationHash = proofHash data)
    (hs : ∀ m ∈ ns, m.node.hasSeen proof = false) (hne : dedupHash proof ≠ dedupHash data) :
    ∃ ns', ∃ returned : Packet, Leftward Relay.Left ns₂ proof.wireBytes ns' returned.wireBytes ∧
      returned.hashablePart = proof.hashablePart := by
  have hs₁ : ∀ m ∈ ns₁, m.node.hasSeen proof = false :=
    forall_of_forall₂ hcarried hs fun m m' hm h => hm.1.unseen proof h hne
  have hs₂ : ∀ m ∈ ns₂, m.node.hasSeen proof = false :=
    forall_of_forall₂ hwait hs₁ fun m m' hm h => hm.hasSeen h
  have hroutes₁ : ∀ m ∈ ns₁, m.node.reverseTable.get proof.destinationHash =
      some ⟨proofHash data, some m.left, some m.right, m.now⟩ := by
    refine forall_right_of_forall₂ hcarried fun m m' hm => ?_
    rw [hd, hm.2, hm.1.left, hm.1.right, hm.1.now]
  have hroutes₂ : ∀ m ∈ ns₂, ∃ e, m.node.reverseTable.get proof.destinationHash = some e ∧
      e.receivedIf = some m.left ∧ e.outboundIf = some m.right := by
    refine forall_of_forall₂ hwait hroutes₁ fun m m' hm h => ⟨_, hm.reverse h le_rfl, ?_, ?_⟩
    · rw [hm.left]
    · rw [hm.right]
  exact proof_leftward hk hs₂ hroutes₂

/-- Once an announce of `d` has come down a line of relays that had nothing to do with `d` before,
every new DATA packet for `d` that the first relay is asked to carry reaches `d` as a HEADER_1
packet that differs in nothing the packet hash covers; and a new PROOF of it, other than an LRPROOF,
comes back down the line. -/
theorem delivers_and_returns (hv : VerifiesOwn) {priv appName : Bytes} {ident : Identity}
    {d : Destination} (hident : Identity.fromPrivateBytes priv = .ok ident)
    (hdest : Destination.new ident appName = .ok d)
    (hpr : d.destinationHash ≠ pathRequestDestinationHash)
    {randomPrefix appData ratchetPub : Bytes} {timestampSecs : Nat} {pathResponse : Bool}
    {announce : Packet} (hbuild : d.buildAnnounce randomPrefix timestampSecs appData ratchetPub
      pathResponse = .ok announce.wireBytes)
    {n n₁ : Relay} {ns ns₁ ns₂ : List Relay} {w : Bytes}
    (hfresh : ∀ m ∈ n :: ns, m.Unaware d.destinationHash ident.publicKey announce)
    (hpass : Leftward (Relay.PassesOn d.destinationHash) ns announce.wireBytes ns₁ w)
    (hhear : n.Hears w n₁)
    (hwait : List.Forall₂ (Relay.Waits pathLifeMs) (n₁ :: ns₁) ns₂)
    {data : Packet} (h2 : data.headerType = .header2) (ht : data.packetType = .data)
    (hdt : data.destinationType ≠ .link) (hd : data.destinationHash = d.destinationHash)
    (hid : data.transportId = n.id) (hnew : ∀ m ∈ n :: ns, m.node.hasSeen data = false)
    (hfree : CollisionFree [announce, data]) :
    ∃ ns₃, ∃ received : Packet,
      Rightward Relay.Right ns₂ data.wireBytes ns₃ received.wireBytes ∧
      received.headerType = .header1 ∧ received.destinationHash = data.destinationHash ∧
      received.context = data.context ∧ received.data = data.data ∧
      received.flags &&& lowNibbleMask = data.flags &&& lowNibbleMask ∧
      ∀ {ns₄ : List Relay} {proof : Packet},
        List.Forall₂ (Relay.Waits ReverseTable.reverseTimeoutMs) ns₃ ns₄ →
        proof.packetType = .proof → proof.context ≠ contextLrproof →
        proof.destinationHash = (sha256 received.hashablePart).slice 0 16 →
        (∀ m ∈ n :: ns, m.node.hasSeen proof = false) → CollisionFree [announce, data, proof] →
        ∃ ns₅, ∃ returned : Packet,
          Leftward Relay.Left ns₄ proof.wireBytes ns₅ returned.wireBytes ∧
          returned.hashablePart = proof.hashablePart ∧ returned.data = proof.data := by
  obtain ⟨hat, hah, hahops, va, hval, hvd, hvp⟩ :=
    announce_of_buildAnnounce hv hident hdest hbuild
  rw [← hvd] at hpr hpass hd
  rw [← hvd, ← hvp] at hfresh
  obtain ⟨hlead, hids, hunseen⟩ :=
    pathsLead_of_announce hval hat ⟨hah, hahops⟩ hfresh hpass hhear hwait
  -- the DATA goes up
  have hda := hfree.dedupHash_ne (p := data) (q := announce) (by simp) (by simp)
    (by rw [ht, hat]; decide)
  have hk : data.handler = .data := Packet.handler_eq_data.mpr ⟨ht, hd ▸ hpr, hdt⟩
  have hto : AddressedTo (headId ns₂) data := hids ▸ addressedTo_some.mpr ⟨h2, hid⟩
  obtain ⟨ns₃, received, hright, hcarried, h1, hpart⟩ :=
    data_rightward hlead hd hto hk (hunseen data hnew hda)
  obtain ⟨hlow, hrd, hrc, hrb⟩ := Packet.hashablePart_eq_iff.mp hpart
  refine ⟨ns₃, received, hright, h1, hrd, hrc, hrb, hlow, ?_⟩
  -- the proof comes down
  intro ns₄ proof hwait₂ hpt hpc hpd hpnew hfree₂
  have hx : proof.destinationHash = proofHash data := by
    rw [hpd, hpart]
    rfl
  have hpa := hfree₂.dedupHash_ne (p := proof) (q := announce) (by simp) (by simp)
    (by rw [hpt, hat]; decide)
  have hpd := hfree₂.dedupHash_ne (p := proof) (q := data) (by simp) (by simp)
    (by rw [hpt, ht]; decide)
  obtain ⟨ns₅, returned, hleft, hpart₂⟩ := proof_returns hcarried hwait₂
    (Packet.handler_eq_proof.mpr ⟨hpt, hpc⟩) hx (hunseen proof hpnew hpa) hpd
  exact ⟨ns₅, returned, hleft, hpart₂, (Packet.hashablePart_eq_iff.mp hpart₂).2.2.2⟩

end

open Vectors
attribute [local instance] lib

/-! ### Alice behind Carol and Bob -/

/-- A relay between the interfaces 0 and 1 that has heard nothing yet. -/
def standing (id : Identity) : Relay :=
  ⟨0, 1, by decide, { Transport.new id true fun _ => cfg with interfaces := [0, 1] }, 1000⟩

theorem verifiesOwn_lib : VerifiesOwn := fun _ _ => decide_eq_true rfl

theorem fromPrivateBytes_alice : Identity.fromPrivateBytes alicePriv = .ok alice := by
  decide +kernel

theorem new_aliceDestination :
    Destination.new alice aliceDestination.appName = .ok aliceDestination := by
  decide +kernel

theorem build_aliceAnnounce : aliceDestination.buildAnnounce [0xa1, 0xa2, 0xa3, 0xa4, 0xa5]
    1700000000 (aliceAnnounce.drop 167) [] false = .ok aliceAnnouncePacket.wireBytes := by
  decide +kernel

theorem unaware_standing {id : Identity} (h : identityHashOf alicePub ≠ id.identityHash) :
    (standing id).Unaware aliceDest alicePub aliceAnnouncePacket where
  path := rfl
  known := by rintro k ⟨⟩
  other := h
  welcome := rfl
  waiting := by rintro e ⟨⟩
  queued := by rintro i e ⟨⟩
  unseen := rfl

theorem Relay.wait (n : Relay) (life now : Nat) : n.Waits life { n with now := now } :=
  ⟨[], n.node, now, .nil, by simp, rfl⟩

set_option maxRecDepth 100000 in
theorem bob_passes : ((standing bob).node.steps
    [.inbound 1 aliceAnnouncePacket.wireBytes 1000, .tick 1000]).toOption.map (fun t =>
      decide (.drained 0 bobAnnouncePacket.wireBytes ∈ t.out)) = some true := by
  decide +kernel

set_option maxRecDepth 100000 in
theorem carol_hears : ((standing carol).node.steps
    [.inbound 1 bobAnnouncePacket.wireBytes 1000, .tick 1000]).toOption.isSome = true := by
  decide +kernel

theorem hears_of_steps {n : Relay} {w : Bytes} {t : Transport}
    (h : n.node.steps [.inbound n.right w n.now, .tick n.now] = .ok t) :
    n.Hears w { n with node := t } := by
  obtain ⟨t₁, h₁, h⟩ := steps_cons h
  obtain ⟨t₂, h₂, h⟩ := steps_cons h
  cases h
  exact ⟨t₁, n.now, t, h₁, Nat.lt_add_of_pos_right (by decide), h₂, rfl⟩

theorem receiptFor_congr {p q : Packet} (context : UInt8) (h : p.hashablePart = q.hashablePart) :
    receiptFor p context = receiptFor q context := by
  have hproof : proofHash p = proofHash q := by rw [proofHash, dedupHash, h, proofHash, dedupHash]
  simp only [receiptFor, hproof]

/-- Carol and Bob carry DATA to Alice, and her proof back. -/
theorem delivers_and_returns_alice : ∃ (ns ns' ns'' : List Relay) (received returned : Packet),
    Rightward Relay.Right ns (sentData carol.identityHash rfl).wireBytes ns' received.wireBytes ∧
    received.headerType = .header1 ∧ received.data = [0xDE, 0xAD, 0xBE, 0xEF] ∧
    Leftward Relay.Left ns' (receiptFor received contextNone).wireBytes ns''
      returned.wireBytes ∧ returned.data = List.replicate 64 0 := by
  obtain ⟨tb, hb, hdrained⟩ := Option.map_eq_some_iff.mp bob_passes
  obtain ⟨tc, hc⟩ := steps_of_isSome carol_hears
  have hpass : Leftward (Relay.PassesOn aliceDest) [standing bob] aliceAnnouncePacket.wireBytes
      [{ standing bob with node := tb }] bobAnnouncePacket.wireBytes :=
    .cons .nil ⟨hears_of_steps (toOption_eq_some hb), of_decide_eq_true hdrained,
      bobAnnouncePacket, rfl, rfl⟩
  have hfresh : ∀ m ∈ [standing carol, standing bob],
      m.Unaware aliceDest alicePub aliceAnnouncePacket := by
    simpa using ⟨unaware_standing (by decide +kernel), unaware_standing (by decide +kernel)⟩
  have hwait : List.Forall₂ (Relay.Waits pathLifeMs)
      [{ standing carol with node := tc }, { standing bob with node := tb }]
      [{ standing carol with node := tc }, { standing bob with node := tb }] :=
    .cons (Relay.wait _ _ _) (.cons (Relay.wait _ _ _) .nil)
  have hfree : CollisionFree [aliceAnnouncePacket, sentData carol.identityHash rfl] :=
    collisionFree_of_nodup (by decide +kernel)
  obtain ⟨ns₃, received, hright, h1, hrd, hrc, hrb, hrf, hproof⟩ :=
    delivers_and_returns verifiesOwn_lib fromPrivateBytes_alice new_aliceDestination
      aliceDest_ne_pathRequest build_aliceAnnounce hfresh hpass (hears_of_steps hc) hwait
      (by decide) (by decide) (by decide) rfl rfl (by simpa using ⟨rfl, rfl⟩) hfree
  have hreceipt := receiptFor_congr contextNone
    (Packet.hashablePart_eq_iff.mpr ⟨hrf, hrd, hrc, hrb⟩)
  have hfree₂ : CollisionFree [aliceAnnouncePacket, sentData carol.identityHash rfl,
      receiptFor received contextNone] := by
    rw [hreceipt]
    exact collisionFree_of_nodup (by decide +kernel)
  obtain ⟨ns₅, returned, hleft, -, hbody⟩ := hproof
    (List.forall₂_same.mpr fun n _ => n.wait _ n.now) (by rw [hreceipt]; decide)
    (by rw [hreceipt]; decide) rfl (by rw [hreceipt]; simpa using ⟨rfl, rfl⟩) hfree₂
  exact ⟨_, ns₃, ns₅, received, returned, hright, h1, hrb, hleft, hbody⟩

set_option maxRecDepth 100000 in
theorem bob_answers : (do
    let t ← (standing bob).node.steps [.inbound 1 aliceAnnouncePacket.wireBytes 1000, .tick 1000]
    let t₁ ← t.step (.inbound 0 (sentData bob.identityHash rfl).wireBytes 1000)
    let t₂ ← t₁.step (.inbound 0 (sentData bob.identityHash rfl).wireBytes 1000)
    let t₃ ← t₁.step (.inbound 1 (receiptFor receivedData contextLrproof).wireBytes 1000)
    return (t₁.transmissions, t₂.transmissions, t₃.transmissions)) =
    Except.ok ([(1, receivedData.wireBytes)], [], []) := by
  decide +kernel

/-- Bob carries the DATA once. A proof of it with the context of an LRPROOF he takes for a link
proof, and drops. -/
theorem lrproof_not_returned : ∃ n₁ n₃ : Relay,
    (standing bob).Unaware aliceDest alicePub aliceAnnouncePacket ∧
    (standing bob).Hears aliceAnnouncePacket.wireBytes n₁ ∧
    Rightward Relay.Right [n₁] (sentData bob.identityHash rfl).wireBytes [n₃]
      receivedData.wireBytes ∧
    (∀ ns w, ¬ Rightward Relay.Right [n₃] (sentData bob.identityHash rfl).wireBytes ns w) ∧
    (receiptFor receivedData contextLrproof).packetType = .proof ∧
    (receiptFor receivedData contextLrproof).destinationHash =
      (sha256 receivedData.hashablePart).slice 0 16 ∧
    (standing bob).node.hasSeen (receiptFor receivedData contextLrproof) = false ∧
    CollisionFree [aliceAnnouncePacket, sentData bob.identityHash rfl,
      receiptFor receivedData contextLrproof] ∧
    ∀ ns w, ¬ Leftward Relay.Left [n₃] (receiptFor receivedData contextLrproof).wireBytes ns w := by
  obtain ⟨t, ht, h⟩ := bind_eq_ok bob_answers
  obtain ⟨t₁, h₁, h⟩ := bind_eq_ok h
  obtain ⟨t₂, h₂, h⟩ := bind_eq_ok h
  obtain ⟨t₃, h₃, h⟩ := bind_eq_ok h
  obtain ⟨hout₁, hout⟩ := Prod.mk.inj (Except.ok.inj h)
  obtain ⟨hout₂, hout₃⟩ := Prod.mk.inj hout
  refine ⟨{ standing bob with node := t }, { standing bob with node := t₁ },
    unaware_standing (by decide +kernel), hears_of_steps ht, .cons ⟨t₁, h₁, hout₁, rfl⟩ .nil, ?_,
    by decide, rfl, rfl, collisionFree_of_nodup (by decide +kernel), ?_⟩
  · intro ns w hright
    cases hright with
    | cons hr _ => exact Relay.not_forwards h₂ hout₂ hr
  · intro ns w hleft
    cases hleft with
    | cons hl hr =>
      cases hl
      exact Relay.not_forwards h₃ hout₃ hr

end Reticulum
