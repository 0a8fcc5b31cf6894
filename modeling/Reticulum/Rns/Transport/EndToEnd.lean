import Mathlib.Tactic.IntervalCases
import Reticulum.Rns.Transport.Delivery
import Reticulum.Rns.Transport.Rebroadcast

/-!
# Announces stay valid end to end

A relay sends an announce on as a HEADER_2 packet of its own, from the announce table or, as a path
response, from the path table. Of the three rewrites none touches what is signed, and the flag that
says where the signature lies is copied; so any number of relays later the announce is still
validated as what it was built from.
-/

namespace Reticulum

/-- `n` in `k` bytes, the most significant first. -/
def bigEndian (k n : Nat) : Bytes := (List.range k).reverse.map fun i => UInt8.ofNat (n / 256 ^ i)

theorem announceRandomHash_eq (randomPrefix : Bytes) (timestampSecs : Nat) :
    announceRandomHash randomPrefix timestampSecs =
      randomPrefix ++ bigEndian 5 (timestampSecs % 2 ^ 40) := by
  have hbyte : ∀ i < 5, UInt8.ofNat (timestampSecs >>> (i * 8)) =
      UInt8.ofNat (timestampSecs % 2 ^ 40 / 256 ^ i) := by
    intro i hi
    apply UInt8.toNat_inj.mp
    rw [UInt8.toNat_ofNat', UInt8.toNat_ofNat', Nat.shiftRight_eq_div_pow]
    interval_cases i <;> omega
  have hrange : (List.range 5).reverse = [4, 3, 2, 1, 0] := by decide
  rw [announceRandomHash, bigEndian, hrange]
  simp only [List.map_cons, List.map_nil]
  rw [hbyte 4 (by decide), hbyte 3 (by decide), hbyte 2 (by decide), hbyte 1 (by decide),
    hbyte 0 (by decide)]

theorem Packet.bumped_hops (p : Packet) : p.bumped.hops.toNat = min 255 (p.hops.toNat + 1) := by
  have hlt : p.hops.toNat < 256 := p.hops.toNat_lt
  have hhops : p.bumped.hops = if p.hops < 255 then p.hops + 1 else p.hops := rfl
  rw [hhops]
  split
  · rename_i h
    have h : p.hops.toNat < 255 := UInt8.lt_iff_toNat_lt.mp h
    rw [UInt8.toNat_add]
    simp only [UInt8.toNat_ofNat]
    omega
  · rename_i h
    have h : ¬ p.hops.toNat < 255 := fun hn => h (UInt8.lt_iff_toNat_lt.mpr hn)
    omega

section
variable [CryptoLib]

theorem Destination.fields_of_new {i : Identity} {appName : Bytes} {d : Destination}
    (h : Destination.new i appName = .ok d) :
    d.identity = i ∧ d.nameHash = Identity.nameHash appName := by
  obtain ⟨destHash, -, h⟩ := bind_eq_ok h
  cases h
  exact ⟨rfl, rfl⟩

namespace Transport

/-- Where the path observer is told of a path, `inbound` has just taken its announce in. -/
theorem inbound_observed {t t' : Transport} {i : IfaceId} {wire : Bytes} {now : Nat}
    {u : PathUpdate} (h : t.step (.inbound i wire now) = .ok t')
    (ho : .pathObserver u ∈ t'.out) : ∃ p va, arriving wire = some p ∧ t.accepts p = some va ∧
      u.destinationHash = va.destinationHash ∧
      t'.paths.get va.destinationHash = some ((t.learnedPath va i p now).noted va.randomHash) := by
  cases step_did h with
  | apart ha _ => cases ha
  | dropped _ => cases ho
  | @took _ _ _ p _ hw hs hh =>
    cases hh with
    | ignored _ => cases ho
    | @announce va _ _ hk ha _ =>
      rw [step_inbound_announce hw hs hk] at h
      obtain ⟨s, -, heq⟩ := handleAnnounce_takeIn (t := seen { t with out := [] } p) i now ha
      cases heq.symm.trans h
      rcases List.mem_append.mp ho with ho | ho
      · cases ho
      rcases of_mem_announceEvents ho with ⟨u', hev, hd, hr⟩ | hev
      · cases hev
        refine ⟨p, va, hw, ha, hd, get_noteRandomBlob_learnedPaths.trans ?_⟩
        cases hget : t.paths.get va.destinationHash with
        | none => rw [keptPath_of_none hget]
        | some e =>
          have hr : replacesPath (some e) p.hops va.randomHash now = true := hget ▸ hr
          rw [keptPath_of_replaces hget hr]
      · cases hev
    | pathRequest hk _ => cases out_of_pathRequest h hw hs hk <;> simp at ho
    | data _ _ => simp at ho
    | linkRequest _ _ => simp at ho
    | proof _ _ => simp at ho
    | linkProof _ _ => simp at ho
    | linkData _ _ => simp at ho

/-! ### What is waiting to be sent on -/

/-- The announce `w` waits at the node for rebroadcast, in the announce table or on an interface. -/
def Pending (t : Transport) (w : Bytes) : Prop :=
  (∃ i, ∃ e ∈ (t.iface i).queue, e.wire = w) ∨
    ∃ e ∈ t.announceTable.entries.values, e.announceWire = w

omit [CryptoLib] in
theorem not_pending_new (id : Identity) (enabled : Bool) (cfg : IfaceId → Interface.Config)
    (w : Bytes) : ¬ (new id enabled cfg).Pending w := by
  rintro (⟨i, e, he, -⟩ | ⟨e, he, -⟩) <;> cases he

/-- A tick puts on the air only what was waiting, as it was. -/
theorem pending_of_tick {t t' : Transport} {now : Nat} (h : t.step (.tick now) = .ok t') :
    (∀ w, t'.Pending w → t.Pending w) ∧ ∀ j w, .drained j w ∈ t'.out → t.Pending w := by
  have hq : QueuesOnly t.Pending t' :=
    .tick (fun i e he => .inl ⟨i, e, he, rfl⟩) (fun e he => .inr ⟨e, he, rfl⟩) h
  refine ⟨?_, hq.drained⟩
  rintro w (⟨i, e, he, rfl⟩ | ⟨e, he, rfl⟩)
  · exact hq.queue i e he
  · obtain ⟨sch, s, f, n, o, -, rfl⟩ := tick_frame h
    obtain ⟨k, hk⟩ := (Dict.mem_values_iff _ _).mp he
    rw [AnnounceTable.popDue, Dict.lookup_retain, Option.filter_eq_some_iff] at hk
    exact .inr ⟨e, (Dict.mem_values_iff _ _).mpr ⟨k, hk.1⟩, rfl⟩

/-- What starts to wait is an announce that the call takes in, reissued. -/
theorem pending_of_step {t t' : Transport} {a : Action} {w : Bytes} (h : t.step a = .ok t')
    (hold : ¬ t.Pending w) (hnew : t'.Pending w) : ∃ i x now p va, a = .inbound i x now ∧
      Takes t i x now p va ∧ w = (Reticulum.reissued t.localIdentity p).wireBytes := by
  have hsame : t'.iface = t.iface → t'.announceTable = t.announceTable → False := by
    intro hif htable
    rw [Pending, hif, htable] at hnew
    exact hold hnew
  cases a with
  | inbound i x now =>
    have hif : t'.iface = t.iface := (step_configures h).iface (by simp)
    obtain ⟨-, ⟨htable, -⟩ | ⟨p, va, htakes, htable, -⟩⟩ := inbound_queue h
    · exact (hsame hif htable).elim
    refine ⟨i, x, now, p, va, rfl, htakes, ?_⟩
    rcases hnew with ⟨j, e, he, rfl⟩ | ⟨e, he, rfl⟩
    · exact absurd (.inl ⟨j, e, hif ▸ he, rfl⟩) hold
    · obtain ⟨k, hk⟩ := (Dict.mem_values_iff _ _).mp he
      rw [htable, AnnounceTable.put, Dict.lookup_insert_eq] at hk
      split at hk
      · cases hk
        rfl
      · exact absurd (.inr ⟨e, (Dict.mem_values_iff _ _).mpr ⟨k, hk⟩, rfl⟩) hold
  | tick now => exact absurd ((pending_of_tick h).1 w hnew) hold
  | _ =>
    cases step_did h with
    | apart _ hk => exact (hsame ((step_configures h).iface (by simp)) hk.announceTable).elim

/-- A node with the identity hash `id` takes in `w` by `inbound` and later sends it on as `w'`. In a
rebroadcast `w'` is what a tick puts on the air, and of all that the node took in it can come from
`w` alone: it was not waiting before, and no other wire has made it wait since. In a path response
it is the answer to a path request, while the path that was learned from `w` caches the same
wire. -/
inductive Reissues (id : Bytes) : Bool → Bytes → Bytes → Prop
  | rebroadcast {t t₁ t₂ t₃ : Transport} {i j : IfaceId} {w w' : Bytes} {now now' : Nat}
    {rs : List (Rec Transport Action)}
    (hid : t.localIdentity.identityHash = id) (hbefore : ¬ t.Pending w')
    (hin : t.step (.inbound i w now) = .ok t₁) (hrun : Run Steps t₁ rs t₂)
    (hothers : ∀ r ∈ rs, ∀ k x τ, r.act = .inbound k x τ → x ≠ w → r.post.Pending w' →
      r.pre.Pending w')
    (htick : t₂.step (.tick now') = .ok t₃) (hout : .drained j w' ∈ t₃.out) :
    Reissues id false w w'
  | pathResponse {t t₁ t₂ t₃ : Transport} {i j o : IfaceId} {w w' request : Bytes} {now now' : Nat}
    {u : PathUpdate} {e e' : PathEntry} {p : Packet} {rs : List (Rec Transport Action)}
    (hid : t.localIdentity.identityHash = id) (hin : t.step (.inbound i w now) = .ok t₁)
    (hlearned : .pathObserver u ∈ t₁.out) (he : t₁.paths.get u.destinationHash = some e)
    (hrun : Run Steps t₁ rs t₂) (he' : t₂.paths.get u.destinationHash = some e')
    (hkept : e'.announceWire = e.announceWire) (hreq : arriving request = some p)
    (htarget : p.data.slice 0 16 = u.destinationHash)
    (hlocal : t₂.isLocalDestination u.destinationHash = false)
    (hanswer : t₂.step (.inbound j request now') = .ok t₃)
    (hout : .transmit .pathResponse o w' ∈ t₃.out) : Reissues id true w w'

/-- What comes out of such a tick is the announce that was taken in, reissued. -/
theorem drained_reissued {t t₁ t₂ t₃ : Transport} {i j : IfaceId} {w w' : Bytes} {now now' : Nat}
    {rs : List (Rec Transport Action)} (hbefore : ¬ t.Pending w')
    (hin : t.step (.inbound i w now) = .ok t₁) (hrun : Run Steps t₁ rs t₂)
    (hothers : ∀ r ∈ rs, ∀ k x τ, r.act = .inbound k x τ → x ≠ w → r.post.Pending w' →
      r.pre.Pending w')
    (htick : t₂.step (.tick now') = .ok t₃) (hout : .drained j w' ∈ t₃.out) :
    ∃ p, arriving w = some p ∧ p.context ≠ contextPathResponse ∧
      w' = (Reticulum.reissued t.localIdentity p).wireBytes := by
  have hall : Run Steps t (⟨t, .inbound i w now, t₁⟩ :: rs) t₂ := .cons hin hrun
  have hstarts := hall.holds_until (P := fun s => ¬ s.Pending w')
    (Q := fun r => ¬ r.pre.Pending w' ∧ r.post.Pending w') hbefore fun r _ _ hpre =>
      (Classical.em (r.post.Pending w')).symm.imp id fun hpost => ⟨hpre, hpost⟩
  obtain ⟨r, hr, hpre, hpost⟩ := hstarts.resolve_left fun hnone =>
    hnone ((pending_of_tick htick).2 j w' hout)
  obtain ⟨before, after, hrs⟩ := List.append_of_mem hr
  rw [hrs] at hall
  obtain ⟨hrunTo, hs, -⟩ := hall.split_at
  obtain ⟨k, x, τ, p, va, ha, htakes, hw'⟩ := pending_of_step hs hpre hpost
  rw [localIdentity_of_run hrunTo] at hw'
  have hx : x = w := by
    rcases List.mem_cons.mp hr with rfl | hr
    · cases ha
      rfl
    · by_contra hne
      exact hpre (hothers r hr k x τ ha hne hpost)
  exact ⟨p, hx ▸ htakes.arrives, htakes.context, hw'⟩

/-- Nothing is left out by that: whatever the ticks of a node put on the air, it has taken in some
wire that it sends on as this one. -/
theorem reissues_of_drained {id : Identity} {enabled : Bool} {cfg : IfaceId → Interface.Config}
    {rs : List (Rec Transport Action)} {t t' : Transport} {j : IfaceId} {w' : Bytes} {now : Nat}
    (hrun : Run Steps (new id enabled cfg) rs t) (htick : t.step (.tick now) = .ok t')
    (hout : .drained j w' ∈ t'.out) : ∃ w, Reissues id.identityHash false w w' := by
  obtain ⟨before, r, after, rfl, ⟨hpre, hpost⟩, hsince⟩ := hrun.since
    (P := fun s => s.Pending w') (Q := fun r => ¬ r.pre.Pending w' ∧ r.post.Pending w')
    (N := fun _ => True) (not_pending_new id enabled cfg w')
    (fun r _ hpost => (Classical.em (r.pre.Pending w')).symm.imp (⟨·, hpost⟩) (⟨·, trivial⟩))
    ((pending_of_tick htick).2 j w' hout)
  obtain ⟨hbefore, hstep, hafter⟩ := hrun.split_at
  obtain ⟨i, w, τ, p, va, hact, -, -⟩ := pending_of_step hstep hpre hpost
  rw [hact] at hstep
  refine ⟨w, .rebroadcast ?_ hpre hstep hafter ?_ htick hout⟩
  · rw [localIdentity_of_run hbefore]
    rfl
  · intro r' hr' _ _ _ _ _ _
    exact (hsince r' hr').1

/-- The wire `w₀` has come as `w` over the relays with the identity hashes `ids`, the last of which
sent a path response or not. -/
inductive Carried (w₀ : Bytes) : List Bytes → Bool → Bytes → Prop
  | sent : Carried w₀ [] false w₀
  | reissued {ids : List Bytes} {resp resp' : Bool} {w w' id : Bytes}
    (h : Carried w₀ ids resp w) (hr : Reissues id resp' w w') : Carried w₀ (ids ++ [id]) resp' w'

/-- What one relay makes of an announce. -/
theorem Reissues.spec {id w' : Bytes} {resp : Bool} {q : Packet} {va : ValidatedAnnounce}
    (h : Reissues id resp q.wireBytes w') (hv : Identity.validateAnnounce q = some va) :
    ∃ q' : Packet, w' = q'.wireBytes ∧ q'.transportId = id ∧ q'.hops = q.bumped.hops ∧
      Identity.validateAnnounce q' = some { va with isPathResponse := resp } := by
  have harr := arriving_wireBytes q
  have hvb : Identity.validateAnnounce q.bumped = some va := (validateAnnounce_bumped q).trans hv
  generalize hw : q.wireBytes = w at h
  rw [hw] at harr
  cases h with
  | @rebroadcast t t₁ t₂ t₃ i j _ _ now now' rs hid hbefore hin hrun hothers htick hout =>
    obtain ⟨p, hp, hcontext, hw'⟩ := drained_reissued hbefore hin hrun hothers htick hout
    obtain rfl := Option.some.inj (harr.symm.trans hp)
    obtain ⟨-, htid, hhops, -⟩ := reissued_shape t.localIdentity q.bumped
    refine ⟨_, hw', htid.trans hid, hhops, ?_⟩
    -- a path response is not queued
    obtain ⟨body, hb⟩ := validateAnnounce_eq_some hvb
    have hresp : va.isPathResponse = false := by
      rw [hb.isPathResponse]
      exact beq_false_of_ne hcontext
    rw [validateAnnounce_reissued, hvb, ← hresp]
  | @pathResponse t t₁ t₂ t₃ i j o _ _ request now now' u e e' p rs hid hin hlearned he hrun he'
      hkept hreq htarget hlocal hanswer hout =>
    obtain ⟨p', va', hw', ha, hd, hget⟩ := inbound_observed hin hlearned
    obtain rfl := Option.some.inj (harr.symm.trans hw')
    rw [hd, hget] at he
    rw [← htarget] at he' hlocal
    obtain ⟨-, -, e'', hget'', rfl⟩ := pathResponse_of_inbound hanswer hreq hlocal hout
    cases he'.symm.trans hget''
    obtain ⟨h2, htid, hhops, -⟩ := reissued_shape t.localIdentity q.bumped
    have hwire : e'.announceWire = (Reticulum.reissued t.localIdentity q.bumped).wireBytes := by
      rw [hkept, ← Option.some.inj he, PathEntry.noted_announceWire]
      rfl
    refine ⟨(Reticulum.reissued t.localIdentity q.bumped).withContext contextPathResponse, ?_,
      htid.trans hid, hhops, ?_⟩
    · rw [hwire, Packet.set_h2CtxOffset h2]
    · exact validateAnnounce_withContext contextPathResponse
        ((validateAnnounce_reissued _ _).trans hvb)

/-- An announce that has come over any relays is validated as what it was. -/
theorem Carried.spec {w₀ w : Bytes} {ids : List Bytes} {resp : Bool} {q₀ : Packet}
    {va : ValidatedAnnounce} (h : Carried w₀ ids resp w) (hw₀ : w₀ = q₀.wireBytes)
    (hops : q₀.hops = 0) (hv : Identity.validateAnnounce q₀ = some va)
    (hresp : va.isPathResponse = false) : ∃ q : Packet, w = q.wireBytes ∧
      q.hops.toNat = min 255 ids.length ∧ (∀ id, ids.getLast? = some id → q.transportId = id) ∧
      Identity.validateAnnounce q = some { va with isPathResponse := resp } := by
  induction h with
  | sent =>
    refine ⟨q₀, hw₀, by simp [hops], by simp, ?_⟩
    rw [hv, ← hresp]
  | @reissued ids resp resp' w w' id _ hr ih =>
    obtain ⟨q, rfl, hq, -, hvq⟩ := ih
    obtain ⟨q', rfl, htid, hhops, hv'⟩ := hr.spec hvq
    refine ⟨q', rfl, ?_, ?_, hv'⟩
    · rw [hhops, Packet.bumped_hops, hq, List.length_append, List.length_singleton]
      omega
    · intro id' hlast
      rw [List.getLast?_concat] at hlast
      exact htid.trans (Option.some.inj hlast)

/-- An announce, as a destination builds it, is validated at the end of any sequence of relays as
what it was built from. Its hops count the relays, and its transport id is the last relay's. -/
theorem announce_valid_end_to_end (hv : VerifiesOwn) {priv appName : Bytes} {ident : Identity}
    {d : Destination} (hident : Identity.fromPrivateBytes priv = .ok ident)
    (hdest : Destination.new ident appName = .ok d) {randomPrefix appData ratchetPub : Bytes}
    {timestampSecs : Nat} (hrandom : randomPrefix.length = 5)
    (hratchet : ratchetPub = [] ∨ ratchetPub.length = 32) :
    ∃ wire, d.buildAnnounce randomPrefix timestampSecs appData ratchetPub false = .ok wire ∧
      ∀ ids resp w, Carried wire ids resp w → ∃ p, arriving w = some p ∧
        Identity.validateAnnounce p = some {
          destinationHash := d.destinationHash
          publicKey := ident.publicKey
          nameHash := Identity.nameHash appName
          randomHash := randomPrefix ++ bigEndian 5 (timestampSecs % 2 ^ 40)
          ratchetPub := ratchetPub
          appData := appData
          isPathResponse := resp } ∧
        p.hops.toNat = min 255 (ids.length + 1) ∧
        ∀ id, ids.getLast? = some id → p.transportId = id := by
  have hgenuine := Destination.genuine_of_new (Identity.genuine_of_fromPrivateBytes hident) hdest
  obtain ⟨hid, hname⟩ := Destination.fields_of_new hdest
  obtain ⟨wire, hbuild⟩ : ∃ wire, d.buildAnnounce randomPrefix timestampSecs appData ratchetPub
      false = .ok wire := by
    refine Destination.exists_buildAnnounce ?_ ?_ hrandom hratchet
    · rw [hid]
      exact Identity.privateKey_of_fromPrivateBytes hident
    · rw [hgenuine.destinationHash]
      exact Identity.length_destHashOf _ _
  refine ⟨wire, hbuild, ?_⟩
  intro ids resp w hc
  obtain ⟨q₀, hw₀, -, hops, -, -, -, hv₀⟩ :=
    Destination.validateAnnounce_of_buildAnnounce hv hgenuine hbuild
  obtain ⟨q, rfl, hq, htid, hvq⟩ := hc.spec hw₀.symm hops hv₀ rfl
  refine ⟨q.bumped, arriving_wireBytes q, ?_, ?_, htid⟩
  · rw [validateAnnounce_bumped, hvq, ← announceRandomHash_eq, ← hid, ← hname]
    rfl
  · rw [Packet.bumped_hops, hq]
    omega

end Transport
end

namespace Transport
open Vectors
attribute [local instance] lib

set_option maxRecDepth 100000 in
theorem heardAlice_drained :
    (relay.steps [.registerInterface 0, .registerInterface 1]).toOption.bind (fun t =>
      (t.step (.inbound 1 aliceAnnounce 1000)).toOption.bind fun t₁ =>
        (t₁.step (.tick 1001)).toOption.map fun t₂ =>
          decide (.drained 0 bobAnnouncePacket.wireBytes ∈ t₂.out)) = some true := by
  decide +kernel

/-- Alice's announce after Bob has passed it on. -/
theorem announce_valid_end_to_end_alice : ∃ w p,
    Carried aliceAnnounce [bob.identityHash] false w ∧ arriving w = some p ∧
    (Identity.validateAnnounce p).isSome ∧ p.hops.toNat = 2 ∧
    p.transportId = bob.identityHash := by
  obtain ⟨t, hsteps, hf⟩ := Option.bind_eq_some_iff.mp heardAlice_drained
  obtain ⟨t₁, h₁, hf⟩ := Option.bind_eq_some_iff.mp hf
  obtain ⟨t₂, h₂, hout⟩ := Option.map_eq_some_iff.mp hf
  have hsteps := toOption_eq_some hsteps
  have hid : t.localIdentity = bob := steps_localIdentity hsteps
  obtain ⟨rs, hrun, hacts⟩ := run_of_steps hsteps
  have hbefore : ¬ t.Pending bobAnnouncePacket.wireBytes := by
    refine hrun.inv_of (I := fun s => ¬ s.Pending bobAnnouncePacket.wireBytes)
      (C := fun r => r.act ∈ [Action.registerInterface 0, .registerInterface 1])
      (not_pending_new bob true _ _) (fun r hr => hacts ▸ List.mem_map_of_mem hr) ?_
    intro s a s' hs h ha hpending
    obtain ⟨i, x, now, p, va, rfl, -⟩ := pending_of_step h hs hpending
    simp at ha
  have hreissues : Reissues bob.identityHash false aliceAnnounce bobAnnouncePacket.wireBytes :=
    .rebroadcast (by rw [hid]) hbefore (toOption_eq_some h₁) .nil (by simp) (toOption_eq_some h₂)
      (of_decide_eq_true hout)
  have hcarried : Carried aliceAnnounce [bob.identityHash] false bobAnnouncePacket.wireBytes :=
    Carried.sent.reissued hreissues
  have hrandom : List.length [(0xa1 : UInt8), 0xa2, 0xa3, 0xa4, 0xa5] = 5 := rfl
  obtain ⟨wire, hbuild, hchain⟩ := announce_valid_end_to_end verifiesOwn_lib fromPrivateBytes_alice
    new_aliceDestination hrandom (.inl rfl)
  cases build_aliceAnnounce.symm.trans hbuild
  obtain ⟨q, hq, hv, hhops, htid⟩ := hchain _ _ _ hcarried
  exact ⟨_, q, hcarried, hq, by rw [hv]; rfl, hhops, htid _ rfl⟩

end Transport
end Reticulum
