import Reticulum.Rns.Transport.EndToEnd
import Reticulum.Rns.Transport.Waiting

/-!
# A fresh announce and the next tick

An announce that is taken in anew waits under its destination until the next tick, unless a later
one for that destination takes its place. The tick hands it to every interface, rewritten.
-/

namespace Reticulum
namespace Transport

/-- The announces for `d` that a tick hands to `j` are those of the due entries for `d`. -/
theorem filter_handings (is : List IfaceId) (due : List AnnounceEntry) (j : IfaceId) (d : Bytes) :
    (handings is due).filter (fun x => decide (x.1 = j ∧ destinationOf x.2.1 = some d)) =
      (due.filter fun e => decide (destinationOf e.announceWire = some d)).flatMap fun e =>
        List.replicate (is.count j) (j, e.announceWire, e.announceHops) := by
  have hone : ∀ e : AnnounceEntry,
      (is.map fun i => (i, e.announceWire, e.announceHops)).filter
        (fun x => decide (x.1 = j ∧ destinationOf x.2.1 = some d)) =
      if destinationOf e.announceWire = some d then
        List.replicate (is.count j) (j, e.announceWire, e.announceHops) else [] := by
    intro e
    split
    · rename_i hd
      have heq : (fun i : IfaceId => decide (i = j ∧ destinationOf e.announceWire = some d)) =
          fun i => i == j := by
        funext i
        simp only [hd, and_true]
        rfl
      rw [List.filter_map]
      show List.map _
        (is.filter fun i => decide (i = j ∧ destinationOf e.announceWire = some d)) = _
      rw [heq, List.filter_beq, List.map_replicate]
    · rename_i hd
      simp [hd]
  induction due with
  | nil => rfl
  | cons e due ih =>
    have hcons : handings is (e :: due) =
        (is.map fun i => (i, e.announceWire, e.announceHops)) ++ handings is due := rfl
    rw [hcons, List.filter_append, hone, ih, List.filter_cons]
    by_cases hd : destinationOf e.announceWire = some d
    · rw [if_pos hd, if_pos (decide_eq_true hd), List.flatMap_cons]
    · rw [if_neg hd, if_neg (by simp [hd]), List.nil_append]

section
variable [CryptoLib]
variable {t t' : Transport} {now : Nat} {d : Bytes}

/-- The call takes in an announce for `d` that the node passes on. -/
def TakesFor (d : Bytes) (c : Rec Transport Action) : Prop :=
  ∃ i wire now p va, c.act = .inbound i wire now ∧ Takes c.pre i wire now p va ∧
    va.destinationHash = d

/-- Between ticks only an announce that is taken in anew changes what waits for a destination. -/
theorem step_waitingFor {a : Action} (h : t.step a = .ok t') (ha : ∀ n, a ≠ .tick n)
    (hno : ¬ TakesFor d ⟨t, a, t'⟩) : t'.announceTable.get d = t.announceTable.get d := by
  cases a with
  | inbound i wire now =>
    obtain ⟨-, ⟨htable, -⟩ | ⟨p, va, htakes, htable, -⟩⟩ := inbound_queue h
    · rw [htable]
    · rw [htable, AnnounceTable.get_put]
      refine if_neg ?_
      rintro rfl
      exact hno ⟨i, wire, now, p, va, rfl, htakes, rfl⟩
  | tick n => exact absurd rfl (ha n)
  | _ =>
    cases step_did h with
    | apart _ hk => rw [hk.announceTable]

theorem Takes.get {i : IfaceId} {wire : Bytes} {p : Packet} {va : ValidatedAnnounce}
    (htakes : Takes t i wire now p va) (h : t.step (.inbound i wire now) = .ok t') :
    t'.announceTable.get va.destinationHash = some (t.queuedAnnounce va i p now) := by
  have hhandler : p.handler = .announce := by
    obtain ⟨body, hb⟩ := validateAnnounce_eq_some (accepts_checks htakes.accepts).1
    exact Packet.handler_eq_announce.mpr hb.packetType
  rw [step_inbound_announce htakes.arrives htakes.unseen hhandler] at h
  obtain ⟨s, -, heq⟩ :=
    handleAnnounce_takeIn (t := seen { t with out := [] } p) i now htakes.accepts
  cases heq.symm.trans h
  have hfresh : ((t.learnedPaths va i p now).noteRandomBlob va.destinationHash va.randomHash).1 =
      true := noteRandomBlob_learnedPaths.trans (decide_eq_true htakes.fresh)
  have hget : (t.announceTable.put (t.queuedAnnounce va i p now)).get va.destinationHash =
      some (t.queuedAnnounce va i p now) := by
    rw [AnnounceTable.get_put]
    exact if_pos rfl
  refine Eq.trans ?_ hget
  exact congrArg (AnnounceTable.get · va.destinationHash)
    (if_pos ⟨htakes.transportEnabled, htakes.context, hfresh⟩)

/-- What waits for a destination when a tick comes is handed to every interface, once for every
time it is registered, and nothing else is for that destination. -/
theorem tick_hands {e : AnnounceEntry} (ht : TableSound t) (h : t.step (.tick now) = .ok t')
    (he : t.announceTable.get d = some e) (hdue : e.retransmitAtMs ≤ now) (j : IfaceId) :
    (t'.out.filterMap Event.handed).filter
        (fun x => decide (x.1 = j ∧ destinationOf x.2.1 = some d)) =
      List.replicate (t.interfaces.count j) (j, e.announceWire, e.announceHops) := by
  have hone : ((t.announceTable.popDue now).1.filter fun e =>
      decide (destinationOf e.announceWire = some d)) = [e] := by
    rw [AnnounceTable.popDue, List.filter_filter]
    refine Dict.filter_values he ?_
    intro k w hw
    obtain ⟨hkey, hdest⟩ := ht k w hw
    rw [Bool.and_eq_true, decide_eq_true_eq, decide_eq_true_eq, hdest]
    constructor
    · rintro ⟨hd, -⟩
      rw [hkey, Option.some.inj hd]
    · rintro rfl
      have hwe : w = e := Option.some.inj (hw.symm.trans he)
      rw [keyOf_inj.mp hkey, hwe]
      exact ⟨rfl, hdue⟩
  rw [(tick_spec h).1, filter_handings, hone, List.flatMap_cons, List.flatMap_nil, List.append_nil]

/-- What waits for a destination waits until a tick, or until another is taken in for it. -/
theorem waitingFor_of_run {rs : List (Rec Transport Action)} {e : AnnounceEntry}
    (hrun : Run Steps t rs t') (he : t.announceTable.get d = some e)
    (hticks : ∀ c ∈ rs, ∀ n, c.act ≠ .tick n) (hothers : ∀ c ∈ rs, ¬ TakesFor d c) :
    t'.announceTable.get d = some e := by
  refine Run.inv_of (I := fun s => s.announceTable.get d = some e)
    (C := fun c => (∀ n, c.act ≠ .tick n) ∧ ¬ TakesFor d c)
    hrun he (fun c hc => ⟨hticks c hc, hothers c hc⟩) ?_
  rintro s a s' hs h ⟨ha, hno⟩
  exact (step_waitingFor h ha hno).trans hs

/-- A fresh announce is handed to every interface with the next tick, once for every time it is
registered, as the HEADER_2 packet under the node's own transport id that counts one hop more,
unless another fresh one for its destination comes before the tick. -/
theorem fresh_announce_queued {t₀ t : Transport} {first last : Rec Transport Action}
    {between : List (Rec Transport Action)} {i : IfaceId} {wire : Bytes} {τ now : Nat} {p : Packet}
    {va : ValidatedAnnounce} (ht : Reachable t₀)
    (hrun : Run Steps t₀ (first :: (between ++ [last])) t)
    (htimely : Timely (first :: (between ++ [last]))) (hfirst : first.act = .inbound i wire τ)
    (htakes : Takes first.pre i wire τ p va) (hticks : ∀ c ∈ between, ∀ n, c.act ≠ .tick n)
    (hothers : ∀ c ∈ between, ¬ TakesFor va.destinationHash c) (hlast : last.act = .tick now) :
    ∃ r q : Packet, r.wireBytes = wire ∧ Packet.fromWireBytes q.wireBytes = .ok q ∧
      q.headerType = .header2 ∧
      q.transportId = last.pre.localIdentity.identityHash ∧
      q.hops.toNat = min 255 (r.hops.toNat + 1) ∧ q.contextFlag = r.contextFlag ∧
      q.destinationType = r.destinationType ∧ q.packetType = r.packetType ∧
      q.destinationHash = r.destinationHash ∧ q.context = r.context ∧ q.data = r.data ∧
      ∀ j, (last.post.out.filterMap Event.handed).filter
          (fun x => decide (x.1 = j ∧ destinationOf x.2.1 = some r.destinationHash)) =
        List.replicate (last.pre.interfaces.count j) (j, q.wireBytes, q.hops) := by
  obtain ⟨hpre, hstep, hrest⟩ := hrun.cons_inv
  obtain ⟨hbetween, hstep', -⟩ := hrest.split_at
  have hstep : first.pre.step (.inbound i wire τ) = .ok first.post := hfirst ▸ hstep
  have hstep' : last.pre.step (.tick now) = .ok last.post := hlast ▸ hstep'
  have hwaits := waitingFor_of_run hbetween (htakes.get hstep) hticks hothers
  have hid : last.pre.localIdentity = first.pre.localIdentity :=
    (localIdentity_of_run hbetween).trans (step_localIdentity hstep)
  have hdue : τ ≤ now := by
    have htime : first.act.time? = some τ := by
      rw [hfirst]
      rfl
    have hafter : ∀ c ∈ between ++ [last], ∀ n, c.act.time? = some n → τ ≤ n :=
      @Timely.le [] _ first τ htimely htime
    refine hafter last (by simp) now ?_
    rw [hlast]
    rfl
  have hreach : Reachable last.pre := by
    rw [← hpre] at ht
    exact (ht.step hstep).run hbetween
  obtain ⟨r, hwire, rfl⟩ := exists_of_arriving htakes.arrives
  obtain ⟨body, hb⟩ := validateAnnounce_eq_some (accepts_checks htakes.accepts).1
  obtain ⟨h2, htid, hhops, hflag⟩ := reissued_shape first.pre.localIdentity r.bumped
  obtain ⟨hlow, hdest, hctx, hdata⟩ :=
    Packet.hashablePart_eq_iff.mp (reissued_hashablePart first.pre.localIdentity r.bumped)
  refine ⟨r, reissued first.pre.localIdentity r.bumped, hwire,
    Packet.fromWireBytes_wireBytes _, h2, ?_, ?_, hflag,
    destinationTypeOf_congr hlow, packetTypeOf_congr hlow, hdest, hctx, hdata, ?_⟩
  · rw [hid]
    exact htid
  · rw [hhops, Packet.bumped_hops]
  · intro j
    have hd : va.destinationHash = r.destinationHash := hb.destinationHash
    rw [← hd]
    exact tick_hands hreach.tableSound hstep' hwaits hdue j

end

open Vectors
attribute [local instance] lib

set_option maxRecDepth 100000 in
theorem aliceAnnounce_fresh :
    (relay.steps [.registerInterface 0, .registerInterface 1]).toOption.map (fun t =>
      ((arriving aliceAnnounce).bind fun p => if t.hasSeen p then none else
          (t.accepts p).map fun va => (t.transportEnabled, decide (p.context = contextPathResponse),
            (t.blobs va.destinationHash).contains va.randomHash),
        (t.step (.inbound 1 aliceAnnounce 1000)).toOption.bind fun t₁ =>
          (t₁.step (.tick 1001)).toOption.map fun _ => t₁.interfaces)) =
    some (some (true, false, false), some [0, 1]) := by
  decide +kernel

/-- Alice's announce goes to both interfaces. -/
theorem fresh_announce_queued_alice : ∃ t₀ t first last, Run Steps t₀ [first, last] t ∧
    first.act = .inbound 1 aliceAnnounce 1000 ∧ last.act = .tick 1001 ∧
    ∃ r q : Packet, r.wireBytes = aliceAnnounce ∧ q.headerType = .header2 ∧
      q.transportId = last.pre.localIdentity.identityHash ∧
      ∀ j ∈ [0, 1], (last.post.out.filterMap Event.handed).filter
          (fun x => decide (x.1 = j ∧ destinationOf x.2.1 = some r.destinationHash)) =
        [(j, q.wireBytes, q.hops)] := by
  obtain ⟨t, hsteps, -, hf⟩ :=
    reachable_of_steps (reachable_new bob true fun _ => Vectors.cfg) aliceAnnounce_fresh
  obtain ⟨htakes, hf⟩ := Prod.mk.inj hf
  obtain ⟨p, hw, hacc⟩ := Option.bind_eq_some_iff.mp htakes
  split at hacc
  · cases hacc
  rename_i hs
  obtain ⟨va, ha, hva⟩ := Option.map_eq_some_iff.mp hacc
  simp only [Prod.mk.injEq, decide_eq_false_iff_not] at hva
  obtain ⟨henabled, hctx, hfresh⟩ := hva
  obtain ⟨t₁, h₁, hf⟩ := Option.bind_eq_some_iff.mp hf
  obtain ⟨t₂, h₂, hifaces⟩ := Option.map_eq_some_iff.mp hf
  have htakes : Takes t 1 aliceAnnounce 1000 p va :=
    ⟨hw, eq_false_of_ne_true hs, ha, henabled, hctx, by simpa using hfresh⟩
  have hrun : Run Steps t (⟨t, .inbound 1 aliceAnnounce 1000, t₁⟩ ::
      ([] ++ [⟨t₁, .tick 1001, t₂⟩])) t₂ := (Run.single (toOption_eq_some h₂)).cons
    (toOption_eq_some h₁)
  obtain ⟨before, hrun₀, -⟩ := run_of_steps hsteps
  obtain ⟨r, q, hr, -, h2, htid, -, -, -, -, -, -, -, hall⟩ := fresh_announce_queued
    ⟨_, _, _, before, hrun₀⟩ hrun (by simp [Timely, Action.time?]) rfl htakes (by simp) (by simp)
    rfl
  refine ⟨t, t₂, _, _, hrun, rfl, rfl, r, q, hr, h2, htid, ?_⟩
  intro j hj
  rw [hall j]
  have hone : t₁.interfaces.count j = 1 := by
    rw [hifaces]
    exact List.count_eq_one_of_mem (by decide) hj
  rw [hone]
  rfl

end Transport
end Reticulum
