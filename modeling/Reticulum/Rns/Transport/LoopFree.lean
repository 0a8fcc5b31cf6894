import Reticulum.Lib.Network
import Reticulum.Rns.Transport.Line
import Reticulum.Rns.Transport.Overhear
import Reticulum.Rns.Transport.Responses
import Reticulum.Rns.Transport.Retention

/-!
# Forwarding without loops

No relay rewrites what the packet hash covers, so all copies of a packet are one packet to a node,
and it forwards the packet at most once while it remembers the hash. A DATA packet therefore dies
out in any network, whatever its path tables say. Path requests have no next hop: a node sends them
once as well, but on every other interface.
-/

namespace Reticulum

/-- `q` is `p` in some header form, with some hops. -/
structure Packet.Variant (q p : Packet) : Prop where
  flags : q.flags &&& lowNibbleMask = p.flags &&& lowNibbleMask
  destinationHash : q.destinationHash = p.destinationHash
  context : q.context = p.context
  data : q.data = p.data

theorem Packet.variant_iff {p q : Packet} : q.Variant p ↔ q.hashablePart = p.hashablePart := by
  rw [Packet.hashablePart_eq_iff]
  constructor
  · rintro ⟨hf, hd, hc, hb⟩
    exact ⟨hf, hd, hc, hb⟩
  · rintro ⟨hf, hd, hc, hb⟩
    exact ⟨hf, hd, hc, hb⟩

instance (q p : Packet) : Decidable (q.Variant p) := decidable_of_iff _ Packet.variant_iff.symm

/-- What is sent of a packet arrives as a copy of it. -/
theorem Packet.Variant.arriving {p q : Packet} (h : q.Variant p) :
    ∃ q', arriving q.wireBytes = some q' ∧ q'.Variant p := by
  have hpart := (bumped_hashablePart q).trans (variant_iff.mp h)
  exact ⟨q.bumped, arriving_wireBytes q, variant_iff.mpr hpart⟩

/-- The packet taken in goes out again. -/
def Event.relays : Event → Bool
  | .transmit .dataForward _ _ | .transmit .pathRequestForward _ _ => true
  | _ => false

section
variable [CryptoLib]

theorem Packet.Variant.handler {p q : Packet} (h : q.Variant p) : q.handler = p.handler :=
  handler_congr h.flags h.destinationHash h.context

theorem Packet.handler_of_data {p : Packet} (hp : p.packetType = .data)
    (hl : p.destinationType ≠ .link) :
    p.handler = if p.destinationHash = pathRequestDestinationHash then .pathRequest else .data := by
  simp [handler, hp, hl]

namespace Transport

/-- The transmissions with which a call relays a copy of `p`. -/
def relayed (p : Packet) (r : Rec Transport Action) : List Event :=
  match r.act with
  | .inbound _ wire _ =>
    if (arriving wire).any (·.Variant p) then r.post.out.filter Event.relays else []
  | _ => []

section
variable {t t' : Transport} {i : IfaceId} {wire : Bytes} {now : Nat} {p q : Packet}

theorem out_of_data (h : t.step (.inbound i wire now) = .ok t') (hw : arriving wire = some q)
    (hk : q.handler = .data) : t'.out = [] ∨
      ∃ e o q', t.route q = some (e, o, q') ∧ t'.out = [.transmit .dataForward o q'.wireBytes] := by
  cases hs : t.hasSeen q with
  | true =>
    obtain ⟨s, hstep⟩ := step_of_hasSeen (i := i) now hw hs
    cases hstep.symm.trans h
    exact .inl rfl
  | false =>
    cases hr : t.route q with
    | none =>
      obtain ⟨s, hstep⟩ :=
        inbound_data_of_route_none (t := { t with out := [] }) (i := i) now hw hs hk hr
      cases hstep.symm.trans h
      exact .inl rfl
    | some route =>
      obtain ⟨e, o, q'⟩ := route
      obtain ⟨s, hstep⟩ :=
        inbound_data_of_route (t := { t with out := [] }) (i := i) now hw hs hk hr
      cases hstep.symm.trans h
      exact .inr ⟨e, o, q', rfl, rfl⟩

omit [CryptoLib] in
theorem relays_of_answers {o : List Event} (h : Answers t i q o) :
    (o.filter Event.relays).length ≤ t.interfaces.length ∧
      ∀ e ∈ o.filter Event.relays, ∃ j, e = .transmit .pathRequestForward j q.wireBytes := by
  cases h with
  | silent => simp
  | own w _ => simp [Event.relays]
  | fromTable e _ => simp [Event.relays]
  | passOn _ =>
    constructor
    · refine (List.length_filter_le _ _).trans ?_
      rw [List.length_map]
      exact List.length_filter_le _ _
    · intro e he
      obtain ⟨j, -, rfl⟩ := List.mem_map.mp (List.mem_of_mem_filter he)
      exact ⟨j, rfl⟩

omit [CryptoLib] in
theorem relayed_inbound (hw : arriving wire = some q) (hq : q.Variant p) :
    relayed p ⟨t, .inbound i wire now, t'⟩ = t'.out.filter Event.relays := by
  simp [relayed, hw, hq]

end

section
variable {p : Packet} {r : Rec Transport Action} {rs : List (Rec Transport Action)}
  {t t' : Transport}

/-- A call that relays a copy of `p` took it in as a new packet. -/
theorem of_relayed_ne_nil (h : Steps r.pre r.act r.post) (hne : relayed p r ≠ []) :
    ∃ i wire now q, r.act = .inbound i wire now ∧ arriving wire = some q ∧ q.Variant p ∧
      r.pre.hasSeen q = false := by
  obtain ⟨t, a, t'⟩ := r
  cases a with
  | inbound i wire now =>
    simp only [relayed] at hne
    split at hne
    · rename_i hany
      obtain ⟨q, hw, hq⟩ := (Option.any_eq_true ..).mp hany
      refine ⟨i, wire, now, q, rfl, hw, of_decide_eq_true hq, ?_⟩
      by_contra hs
      have h : t.step (.inbound i wire now) = .ok t' := h
      have hs : t.hasSeen q = true := eq_true_of_ne_false hs
      obtain ⟨s, hstep⟩ := step_of_hasSeen (i := i) now hw hs
      cases hstep.symm.trans h
      exact hne rfl
    · exact absurd rfl hne
  | _ => exact absurd rfl hne

/-- What a node relays of a packet are copies of it: one, or one for each other interface. -/
theorem relayed_spec (h : Steps r.pre r.act r.post) (hp : p.packetType = .data)
    (hl : p.destinationType ≠ .link) :
    ((relayed p r).length ≤ if p.destinationHash = pathRequestDestinationHash
      then r.pre.interfaces.length else 1) ∧
    ∀ e ∈ relayed p r, ∃ o w q, e.onAir = some (o, w) ∧ arriving w = some q ∧ q.Variant p := by
  by_cases hnil : relayed p r = []
  · simp [hnil]
  obtain ⟨i, wire, now, q, ha, hw, hq, hs⟩ := of_relayed_ne_nil h hnil
  obtain ⟨t, a, t'⟩ := r
  cases ha
  rw [relayed_inbound hw hq]
  have hk := hq.handler.trans (Packet.handler_of_data hp hl)
  split at hk
  · obtain ⟨hlen, hall⟩ := relays_of_answers (out_of_pathRequest h hw hs hk)
    rw [if_pos ‹_›]
    refine ⟨hlen, ?_⟩
    intro e he
    obtain ⟨j, rfl⟩ := hall e he
    obtain ⟨q', harr, hq'⟩ := hq.arriving
    exact ⟨j, _, q', rfl, harr, hq'⟩
  · rw [if_neg ‹_›]
    rcases out_of_data h hw hk with hout | ⟨e, o, q', hr, hout⟩
    · simp only at hout
      simp [hout]
    · obtain ⟨h2, -, -, hrelay⟩ := route_eq_some hr
      have hpart := (relayOf_hashablePart hrelay).trans (Packet.variant_iff.mp hq)
      obtain ⟨q'', harr, hq''⟩ := (Packet.variant_iff.mpr hpart).arriving
      simp only at hout
      rw [hout]
      refine ⟨List.length_filter_le _ _, ?_⟩
      intro e he
      cases List.mem_singleton.mp (List.mem_of_mem_filter he)
      exact ⟨o, _, q'', rfl, harr, hq''⟩

/-- Between two calls of one run that relay copies of `p`, half a million hashes were recorded. -/
theorem relayed_eq_nil_of_relayed {r' : Rec Transport Action} (hinv : HashlistInv r.pre)
    (h : Steps r.pre r.act r.post) (hne : relayed p r ≠ []) (hrun : Run Steps r.post rs r'.pre)
    (h' : Steps r'.pre r'.act r'.post)
    (hfew : ((recordedHashes rs).erase (dedupHash p)).card < 500001) : relayed p r' = [] := by
  by_contra hne'
  obtain ⟨i, wire, now, q, ha, hw, hq, hs⟩ := of_relayed_ne_nil h hne
  obtain ⟨i', wire', now', q', ha', hw', hq', hs'⟩ := of_relayed_ne_nil h' hne'
  have hpart := Packet.variant_iff.mp hq
  have hhash : dedupHash q = dedupHash p := by simp only [dedupHash, hpart]
  rw [ha] at h
  rw [← hhash] at hfew
  have hseen := hasSeen_of_run hinv hw hs h hrun hfew
  rw [hasSeen_congr r'.pre (hpart.trans (Packet.variant_iff.mp hq').symm), hs'] at hseen
  cases hseen

/-- In a run of one node with few enough other packets, at most one call relays copies of `p`. -/
theorem countP_relayed_le_one (hrun : Run Steps t rs t') (hinv : HashlistInv t)
    (hfew : ((recordedHashes rs).erase (dedupHash p)).card < 500001) :
    rs.countP (fun r => relayed p r ≠ []) ≤ 1 := by
  induction rs generalizing t with
  | nil => simp
  | cons r rs ih =>
    obtain ⟨hpre, hstep, hrest⟩ := hrun.cons_inv
    have hsub : recordedHashes rs ⊆ recordedHashes (r :: rs) :=
      recordedHashes_subset fun r' hr' => List.mem_cons_of_mem r hr'
    have hfew' : ((recordedHashes rs).erase (dedupHash p)).card < 500001 :=
      (Finset.card_le_card (Finset.erase_subset_erase _ hsub)).trans_lt hfew
    rw [← hpre] at hinv
    rw [List.countP_cons]
    by_cases hne : relayed p r = []
    · have htail := ih hrest (hashlistInv_step hinv hstep) hfew'
      simpa [hne] using htail
    · -- the later calls find the hash in the list
      have hnone : rs.countP (fun r => relayed p r ≠ []) = 0 := by
        rw [List.countP_eq_zero]
        intro r' hr'
        obtain ⟨before, after, rfl⟩ := List.append_of_mem hr'
        obtain ⟨hbefore, hstep', -⟩ := hrest.split_at
        have hsub' : recordedHashes before ⊆ recordedHashes (before ++ r' :: after) :=
          recordedHashes_subset fun r'' hr'' => List.mem_append_left _ hr''
        have hfew'' := (Finset.card_le_card
          (Finset.erase_subset_erase (dedupHash p) hsub')).trans_lt hfew'
        simp [relayed_eq_nil_of_relayed hinv hstep hne hbefore hstep' hfew'']
      rw [hnone]
      split <;> omega

theorem card_recordedHashes_le (rs : List (Rec Transport Action)) :
    (recordedHashes rs).card ≤ rs.length :=
  (List.toFinset_card_le _).trans (List.length_filterMap_le _ _)

theorem card_recordedHashes_calls_lt {ν μ : Type} [DecidableEq ν] {hash : Bytes} (n : ν)
    {rs : List (Rec (Net ν μ Transport Bytes) (Net.Act ν μ Bytes Action))}
    (h : rs.length < 500001) : ((recordedHashes (Net.calls n rs)).erase hash).card < 500001 := by
  refine (Finset.card_erase_le.trans (card_recordedHashes_le _)).trans_lt ?_
  exact (List.length_filterMap_le _ rs).trans_lt h

omit [CryptoLib] in
theorem sum_le_countP {α : Type} {f : α → List Event} {l : List α}
    (h : ∀ x ∈ l, (f x).length ≤ 1) :
    (l.map fun x => (f x).length).sum ≤ l.countP fun x => f x ≠ [] := by
  induction l with
  | nil => simp
  | cons x l ih =>
    have hx := h x (List.mem_cons_self ..)
    have htail := ih fun y hy => h y (List.mem_cons_of_mem x hy)
    rw [List.map_cons, List.sum_cons, List.countP_cons]
    by_cases hnil : f x = []
    · simpa [hnil] using htail
    · rw [if_pos (decide_eq_true hnil)]
      omega

end

/-! ### In a network -/

section
variable {ν μ : Type}

/-- Nodes with their interfaces on the media `medium`. -/
def onMedia (medium : ν → IfaceId → μ) : Net.Links ν μ Transport Bytes IfaceId Action where
  step := Steps
  hears a := match a with
    | .inbound i wire _ => some (i, wire)
    | _ => none
  sends := transmissions
  medium := medium

/-- In any network every node relays copies of a DATA packet in at most one call, and what it sends
are copies again; so unless the packet is a path request there are no more transmissions of it than
nodes. -/
theorem data_forwarded_once [Fintype ν] [DecidableEq ν] {medium : ν → IfaceId → μ}
    {net net' : Net ν μ Transport Bytes} {p : Packet}
    {rs : List (Rec (Net ν μ Transport Bytes) (Net.Act ν μ Bytes Action))}
    (hrun : Run (Net.Step (onMedia medium)) net rs net') (hinv : ∀ n, HashlistInv (net.node n))
    (hp : p.packetType = .data) (hl : p.destinationType ≠ .link)
    (hfew : ∀ n, ((recordedHashes (Net.calls n rs)).erase (dedupHash p)).card < 500001) :
    (∀ n, (Net.calls n rs).countP (fun r => relayed p r ≠ []) ≤ 1) ∧
    (∀ n, ∀ r ∈ Net.calls n rs,
      ((relayed p r).length ≤ if p.destinationHash = pathRequestDestinationHash
        then r.pre.interfaces.length else 1) ∧
      ∀ e ∈ relayed p r, ∃ o w q, e.onAir = some (o, w) ∧ arriving w = some q ∧ q.Variant p) ∧
    (p.destinationHash ≠ pathRequestDestinationHash →
      (rs.map (Net.weight fun r => (relayed p r).length)).sum ≤ Fintype.card ν) := by
  have hnode := fun n => Net.run_calls n hrun
  have honce : ∀ n, (Net.calls n rs).countP (fun r => relayed p r ≠ []) ≤ 1 :=
    fun n => countP_relayed_le_one (hnode n) (hinv n) (hfew n)
  have hspec := fun n r (hr : r ∈ Net.calls n rs) =>
    relayed_spec ((hnode n).step_of_mem hr) hp hl
  refine ⟨honce, hspec, ?_⟩
  intro hpr
  apply Net.sum_le_card
  intro n
  refine (sum_le_countP ?_).trans (honce n)
  intro r hr
  have hlen := (hspec n r hr).1
  rwa [if_neg hpr] at hlen

end
end Transport
end

namespace Transport
open Vectors
attribute [local instance] lib

/-! ### Bob and Carol on one channel -/

def channel : Net.Links Bool Unit Transport Bytes IfaceId Action := onMedia fun _ _ => ()

/-- Bob in the state `t` and Carol in the state `u`, and nothing on the air. -/
def pair (t u : Transport) : Net Bool Unit Transport Bytes :=
  ⟨fun n => bif n then u else t, fun _ => ∅⟩

/-- Carol is sent `w`, Bob hears what she sends, and she hears what he sends. -/
def backAndForth (t t₁ u u₁ u₂ : Transport) (w w₁ w₂ : Bytes) (now : Nat) :
    List (Rec (Net Bool Unit Transport Bytes) (Net.Act Bool Unit Bytes Action)) :=
  let net₁ := (pair t u).inject () w
  let net₂ := net₁.after channel true u₁
  let net₃ := net₂.after channel false t₁
  [⟨pair t u, .inject () w, net₁⟩, ⟨net₁, .call true (.inbound 0 w now), net₂⟩,
    ⟨net₂, .call false (.inbound 0 w₁ (now + 1)), net₃⟩,
    ⟨net₃, .call true (.inbound 0 w₂ (now + 2)), net₃.after channel true u₂⟩]

theorem run_backAndForth {t t₁ u u₁ u₂ : Transport} {w w₁ w₂ : Bytes} {now : Nat}
    (hu₁ : u.step (.inbound 0 w now) = .ok u₁) (hw₁ : (0, w₁) ∈ u₁.transmissions)
    (ht₁ : t.step (.inbound 0 w₁ (now + 1)) = .ok t₁) (hw₂ : (0, w₂) ∈ t₁.transmissions)
    (hu₂ : u₁.step (.inbound 0 w₂ (now + 2)) = .ok u₂) :
    ∃ net, Run (Net.Step channel) (pair t u) (backAndForth t t₁ u u₁ u₂ w w₁ w₂ now) net := by
  refine ⟨_, .cons (.inject () w) (.cons (.call ?_ hu₁) (.cons (.call ?_ ht₁)
    (.single (.call ?_ hu₂))))⟩
  · rintro i w' ⟨⟩
    exact Net.mem_air_inject () w
  · rintro i w' ⟨⟩
    exact Net.mem_air_after (L := channel) (n := true) hw₁
  · rintro i w' ⟨⟩
    exact Net.mem_air_after (L := channel) (n := false) hw₂

set_option maxRecDepth 100000 in
/-- Carol has her path to Alice from Bob. -/
theorem both_relay : (do
    let t ← relay.steps [.registerInterface 0, .inbound 0 aliceAnnounce 1000]
    let u ← (new carol true fun _ => cfg).steps
      [.registerInterface 0, .inbound 0 bobAnnouncePacket.wireBytes 1000]
    let u₁ ← u.step (.inbound 0 dataForAlice.wireBytes 2000)
    let t₁ ← t.step (.inbound 0 carolsCopy.wireBytes 2001)
    let u₂ ← u₁.step (.inbound 0 bobsCopy.wireBytes 2002)
    return (u₁.out, t₁.out, u₂.out)) =
      Except.ok ([.transmit .dataForward 0 carolsCopy.wireBytes],
        [.transmit .dataForward 0 bobsCopy.wireBytes], []) := by
  decide +kernel

theorem relayed_ne_nil {t t' : Transport} {i o : IfaceId} {wire w : Bytes} {now : Nat}
    {p q : Packet} (hw : arriving wire = some q) (hq : q.Variant p)
    (hout : t'.out = [.transmit .dataForward o w]) :
    relayed p ⟨t, .inbound i wire now, t'⟩ ≠ [] := by
  rw [relayed_inbound hw hq, hout]
  simp [Event.relays]

/-- Carol and Bob each send the packet on once, although she hears his copy of it as well. -/
theorem data_forwarded_once_alice : ∃ t t₁ u u₁ u₂, Reachable t ∧ Reachable u ∧
    let rs := backAndForth t t₁ u u₁ u₂ dataForAlice.wireBytes carolsCopy.wireBytes
      bobsCopy.wireBytes 2000
    (∃ net, Run (Net.Step channel) (pair t u) rs net) ∧
      (∀ n, (Net.calls n rs).countP (fun r => relayed dataForAlice r ≠ []) = 1) ∧
      (rs.map (Net.weight fun r => (relayed dataForAlice r).length)).sum ≤ 2 := by
  obtain ⟨t, ht, h⟩ := bind_eq_ok both_relay
  obtain ⟨u, hu, h⟩ := bind_eq_ok h
  obtain ⟨u₁, hu₁, h⟩ := bind_eq_ok h
  obtain ⟨t₁, ht₁, h⟩ := bind_eq_ok h
  obtain ⟨u₂, hu₂, h⟩ := bind_eq_ok h
  obtain ⟨houtu, hout⟩ := Prod.mk.inj (Except.ok.inj h)
  obtain ⟨houtt, -⟩ := Prod.mk.inj hout
  obtain ⟨rst, hrt, -⟩ := run_of_steps ht
  obtain ⟨rsu, hru, -⟩ := run_of_steps hu
  have hreacht := (reachable_new bob true fun _ => cfg).run hrt
  have hreachu := (reachable_new carol true fun _ => cfg).run hru
  obtain ⟨net, hrun⟩ := run_backAndForth hu₁ (by simp [transmissions, houtu, Event.onAir]) ht₁
    (by simp [transmissions, houtt, Event.onAir]) hu₂
  have hinv : ∀ n, HashlistInv ((pair t u).node n) := by
    intro n
    cases n with
    | false => exact hreacht.hashlistInv
    | true => exact hreachu.hashlistInv
  obtain ⟨honce, -, htotal⟩ := data_forwarded_once (p := dataForAlice) hrun hinv (by decide)
    (by decide) fun n => card_recordedHashes_calls_lt n (show 4 < 500001 by decide)
  refine ⟨t, t₁, u, u₁, u₂, hreacht, hreachu, ⟨net, hrun⟩, ?_, htotal aliceDest_ne_pathRequest⟩
  intro n
  refine (honce n).antisymm (List.countP_pos_iff.mpr ?_)
  cases n with
  | false =>
    exact ⟨_, List.mem_cons_self, decide_eq_true
      (relayed_ne_nil (arriving_wireBytes carolsCopy) (by decide) houtt)⟩
  | true =>
    exact ⟨_, List.mem_cons_self, decide_eq_true
      (relayed_ne_nil (arriving_wireBytes dataForAlice) (by decide) houtu)⟩

/-! ### A path request -/

/-- One node, in the state `t`, and nothing on the air. -/
def alone (t : Transport) : Net Unit IfaceId Transport Bytes := ⟨fun _ => t, fun _ => ∅⟩

/-- The node is sent `wire`, and hears it on `i`. -/
def heardOnce (t t' : Transport) (i : IfaceId) (wire : Bytes) (now : Nat) :
    List (Rec (Net Unit IfaceId Transport Bytes) (Net.Act Unit IfaceId Bytes Action)) :=
  let net := (alone t).inject i wire
  [⟨alone t, .inject i wire, net⟩,
    ⟨net, .call () (.inbound i wire now), net.after (onMedia fun _ i => i) () t'⟩]

theorem run_heardOnce {t t' : Transport} {i : IfaceId} {wire : Bytes} {now : Nat}
    (h : t.step (.inbound i wire now) = .ok t') :
    Run (Net.Step (onMedia fun _ i => i)) (alone t) (heardOnce t t' i wire now)
      (((alone t).inject i wire).after (onMedia fun _ i => i) () t') := by
  refine .cons (.inject i wire) (.single (.call ?_ h))
  rintro j w hw
  cases hw
  exact .inr ⟨rfl, rfl⟩

set_option maxRecDepth 100000 in
theorem query_relayed : (relay.steps
    [.registerInterface 0, .registerInterface 1, .registerInterface 2]).toOption.map (fun t =>
      (t.step (.inbound 0 aliceQuery 1000)).toOption.map fun t' =>
        (t'.out.filter Event.relays).length) = some (some 2) := by
  decide +kernel

theorem query_is_data : (arriving aliceQuery).map (fun p =>
    (decide (p.packetType = .data), decide (p.destinationType = .link))) = some (true, false) := by
  decide +kernel

/-- A path request leaves the one node it is sent to twice. -/
theorem query_relayed_twice : ¬ ∀ {ν μ : Type} [Fintype ν] [DecidableEq ν]
    {medium : ν → IfaceId → μ} {net net' : Net ν μ Transport Bytes} {p : Packet}
    {rs : List (Rec (Net ν μ Transport Bytes) (Net.Act ν μ Bytes Action))},
    Run (Net.Step (onMedia medium)) net rs net' → (∀ n, Reachable (net.node n)) →
    p.packetType = .data → p.destinationType ≠ .link →
    (∀ n, ((recordedHashes (Net.calls n rs)).erase (dedupHash p)).card < 500001) →
    (rs.map (Net.weight fun r => (relayed p r).length)).sum ≤ Fintype.card ν := by
  intro hfew
  obtain ⟨t, -, ht, hf⟩ := reachable_of_steps (reachable_new bob true fun _ => cfg) query_relayed
  obtain ⟨t', hstep, htwo⟩ := Option.map_eq_some_iff.mp hf
  obtain ⟨p, hw, hp⟩ := Option.map_eq_some_iff.mp query_is_data
  obtain ⟨htype, hlink⟩ := Prod.mk.inj hp
  have hsum := hfew (run_heardOnce (toOption_eq_some hstep)) (fun _ => ht)
    (of_decide_eq_true htype) (of_decide_eq_false hlink)
    fun n => card_recordedHashes_calls_lt n (show 2 < 500001 by decide)
  have hone : (relayed p ⟨t, .inbound 0 aliceQuery 1000, t'⟩).length = 2 := by
    rw [relayed_inbound hw ⟨rfl, rfl, rfl, rfl⟩, htwo]
  have htotal : ((heardOnce t t' 0 aliceQuery 1000).map
      (Net.weight fun r => (relayed p r).length)).sum = 2 := by
    simpa [heardOnce, Net.weight, Net.inject, Net.after, alone] using hone
  rw [htotal] at hsum
  simp at hsum

end Transport
end Reticulum
