import Reticulum.Rns.Transport.Entries
import Reticulum.Rns.Vectors

/-!
# Blackholed identities

From the call of `blackhole_identity` on, nothing is learned from announces of that identity, so
what the node knows of its destinations can only run out. A path is forgotten at the first tick
after it expires, and then nothing for the destination is forwarded.
-/

namespace Reticulum
namespace Transport

section
variable [CryptoLib] {t t' : Transport} {a : Action} {rs : List (Rec Transport Action)}
  {d idHash : Bytes}

/-- The node knows `d` as a destination of the identity `idHash`. -/
def KnownFor (t : Transport) (idHash d : Bytes) : Prop :=
  ∃ pk, t.publicKeyFor d = some pk ∧ identityHashOf pk = idHash

theorem step_isBlackholed (hs : t.step a = .ok t') (hb : t.isBlackholed idHash = true)
    (ha : a ≠ .unblackholeIdentity idHash) : t'.isBlackholed idHash = true := by
  cases a with
  | inbound i wire now =>
    cases step_did hs with
    | apart ha _ => cases ha
    | dropped _ => exact hb
    | took _ _ hh => cases hh <;> exact hb
  | tick now =>
    obtain ⟨sch, s, f, n, o, -, rfl⟩ := tick_frame hs
    exact hb
  | emitAnnounceForLocal d data pr only =>
    obtain ⟨⟨b, t₁⟩, h₁, hs⟩ := map_eq_ok hs
    obtain ⟨n, o, -, s, rfl⟩ := emitAnnounceForLocal_frame h₁
    cases hs
    exact hb
  | blackholeIdentity u =>
    cases hs
    simp only [isBlackholed, decide_eq_true_eq] at hb ⊢
    exact Finset.mem_insert_of_mem hb
  | unblackholeIdentity u =>
    cases hs
    have hne : keyOf idHash ≠ keyOf u := by
      intro hkey
      exact ha (congrArg Action.unblackholeIdentity (keyOf_inj.mp hkey).symm)
    simp only [isBlackholed, decide_eq_true_eq] at hb ⊢
    exact Finset.mem_erase.mpr ⟨hne, hb⟩
  | _ => cases hs; exact hb

theorem isBlackholed_of_run (hrun : Run Steps t rs t') (hb : t.isBlackholed idHash = true)
    (hkeep : ∀ r ∈ rs, r.act ≠ .unblackholeIdentity idHash) : t'.isBlackholed idHash = true :=
  hrun.inv_of (I := fun s => s.isBlackholed idHash = true) hb hkeep
    fun _ _ _ hb hs ha => step_isBlackholed hs hb ha

/-- An announce of a blackholed identity is not accepted. -/
theorem identity_of_accepts {p : Packet} {va : ValidatedAnnounce}
    (hb : t.isBlackholed idHash = true) (ha : t.accepts p = some va) :
    identityHashOf va.publicKey ≠ idHash := by
  rintro rfl
  obtain ⟨-, -, hopen, -⟩ := accepts_checks ha
  rw [hb] at hopen
  cases hopen

/-- A call of a node that has blackholed an identity leaves what it knows of a destination of that
identity, or forgets the way there. -/
theorem step_knownFor (hs : t.step a = .ok t') (hb : t.isBlackholed idHash = true)
    (hd : t'.KnownFor idHash d) : t.KnownFor idHash d ∧
      (t'.paths.get d = t.paths.get d ∨ t'.paths.get d = none) := by
  obtain ⟨pk, hpk, hid⟩ := hd
  cases step_entry hs d with
  | keep hp hk => exact ⟨⟨pk, hk ▸ hpk, hid⟩, .inl hp⟩
  | takeIn _ _ ha _ _ hk =>
    cases hk.symm.trans hpk
    exact absurd hid (identity_of_accepts hb ha)
  | expire _ _ hp hk => exact ⟨⟨pk, hk ▸ hpk, hid⟩, .inr hp⟩

/-- What a tick leaves has not expired. -/
theorem lt_expiresMs_of_tick {now : Nat} {e : PathEntry} (hs : t.step (.tick now) = .ok t')
    (he : t'.paths.get d = some e) : now < e.expiresMs := by
  cases step_did hs with
  | apart ha _ => cases ha
  | ticked _ =>
    have hget := (t.paths.get_evictExpired now d).symm.trans he
    obtain ⟨-, hkept⟩ := Option.filter_eq_some_iff.mp hget
    simpa using hkept

/-- The path that such a destination has after a run is the one it had before, and no tick was past
its time. -/
theorem knownFor_of_run (hrun : Run Steps t rs t') (hb : t.isBlackholed idHash = true)
    (hkeep : ∀ r ∈ rs, r.act ≠ .unblackholeIdentity idHash) (hd : t'.KnownFor idHash d) :
    t.KnownFor idHash d ∧ ∀ e, t'.paths.get d = some e → t.paths.get d = some e ∧
      ∀ r ∈ rs, ∀ now, r.act = .tick now → now < e.expiresMs := by
  induction hrun with
  | nil => exact ⟨hd, fun e he => ⟨he, by simp⟩⟩
  | @snoc rs s s' a hbefore hs ih =>
    have hkeep' : ∀ r ∈ rs, r.act ≠ .unblackholeIdentity idHash :=
      fun r hr => hkeep r (List.mem_append_left _ hr)
    obtain ⟨hd', hpath⟩ := step_knownFor hs (isBlackholed_of_run hbefore hb hkeep') hd
    obtain ⟨hknown, hold⟩ := ih hkeep' hd'
    refine ⟨hknown, ?_⟩
    intro e he
    rcases hpath with hsame | hnone
    · obtain ⟨hfirst, hticks⟩ := hold e (hsame ▸ he)
      refine ⟨hfirst, ?_⟩
      intro r hr now ht
      rcases List.mem_append.mp hr with hr | hr
      · exact hticks r hr now ht
      · cases List.mem_singleton.mp hr
        cases ht
        exact lt_expiresMs_of_tick hs he
    · cases hnone.symm.trans he

/-- A path request is answered with transmissions only. -/
theorem announceHandler_of_pathRequest {i j : IfaceId} {p : Packet} {va : ValidatedAnnounce}
    (hs : t.handlePathRequest i p = .ok t') (ho : .announceHandler va j ∈ t'.out) :
    .announceHandler va j ∈ t.out := by
  cases requested_of_handlePathRequest hs with
  | short _ => exact ho
  | tagless _ => exact ho
  | repeated _ _ _ => exact ho
  | fresh _ _ _ hr =>
    cases hr with
    | noSeed _ => exact ho
    | own _ he =>
      obtain ⟨n, o, hemits, s, rfl⟩ := emitAnnounceForLocal_frame he
      rcases List.mem_append.mp ho with ho | ho
      · exact ho
      · cases hemits _ ho
    | @fromTable e _ _ =>
      change _ ∈ ((t.tagged p).emitPathResponse i e).out at ho
      unfold emitPathResponse at ho
      split at ho
      · exact ho
      · rcases List.mem_append.mp ho with ho | ho
        · exact ho
        · cases List.mem_singleton.mp ho
    | passOn _ _ =>
      simp only [forwardPathRequest] at ho
      split at ho
      · obtain ⟨s, heq⟩ := adds_transmitAll (t.tagged p) .pathRequestForward
          ((t.tagged p).interfaces.filter (· ≠ i)) p.wireBytes
        rw [heq] at ho
        rcases List.mem_append.mp ho with ho | ho
        · exact ho
        · obtain ⟨_, -, hev⟩ := List.mem_map.mp ho
          cases hev
      · exact ho
    | disabled _ => exact ho

theorem accepts_of_announceHandler {i j : IfaceId} {wire : Bytes} {now : Nat}
    {va : ValidatedAnnounce} (hs : t.step (.inbound i wire now) = .ok t')
    (ho : .announceHandler va j ∈ t'.out) : ∃ p, t.accepts p = some va := by
  have hdid := step_did hs
  cases hdid with
  | apart ha _ => cases ha
  | dropped _ => cases ho
  | @took _ _ _ p _ hw hseen hh =>
    cases hh with
    | ignored _ => cases ho
    | announce hk ha _ =>
      rw [step_inbound_announce hw hseen hk] at hs
      obtain ⟨s, -, heq⟩ := handleAnnounce_takeIn (t := seen { t with out := [] } p) i now ha
      cases heq.symm.trans hs
      rcases List.mem_append.mp ho with ho | ho
      · cases ho
      rcases of_mem_announceEvents ho with ⟨u, hev, -⟩ | hev
      · cases hev
      · cases hev
        exact ⟨p, ha⟩
    | pathRequest hk _ =>
      rw [step_inbound_eq hw hseen, dispatch_eq, hk] at hs
      cases announceHandler_of_pathRequest hs ho
    | data _ _ => simp at ho
    | linkRequest _ _ => simp at ho
    | proof _ _ => simp at ho
    | linkProof _ _ => simp at ho
    | linkData _ _ => simp at ho

/-- Without a path, DATA and link requests for the destination go nowhere. -/
theorem out_of_no_path {i : IfaceId} {wire : Bytes} {now : Nat} {p : Packet}
    (hnone : t.paths.get p.destinationHash = none) (hw : arriving wire = some p)
    (hk : p.handler = .data ∨ p.handler = .linkRequest)
    (hs : t.step (.inbound i wire now) = .ok t') : t'.out = [] := by
  have hroute : t.route p = none := by
    cases hr : t.route p with
    | none => rfl
    | some eoq =>
      obtain ⟨-, -, he, -⟩ := route_eq_some hr
      cases hnone.symm.trans he
  cases step_did hs with
  | apart ha _ => cases ha
  | dropped _ => rfl
  | took hw' _ hh =>
    cases hw.symm.trans hw'
    cases hh with
    | ignored _ => rfl
    | data _ hr => cases hroute.symm.trans hr
    | linkRequest _ hr => cases hroute.symm.trans hr
    | announce hk' _ _ | pathRequest hk' _ | proof hk' _ | linkProof hk' _ | linkData hk' _ =>
      rcases hk with hk | hk <;> cases hk.symm.trans hk'

/-- A blackholed identity fades: while it is blackholed, no destination of it becomes known, a path
to one is the path there was, at most until the first tick past its time; after that tick DATA and
link requests for the destination go nowhere. No handler is told of an announce of it. -/
theorem blackholed_fades (hrun : Run Steps t rs t') (hb : t.isBlackholed idHash = true)
    (hkeep : ∀ r ∈ rs, r.act ≠ .unblackholeIdentity idHash) :
    (∀ d, t'.KnownFor idHash d → t.KnownFor idHash d ∧
      (∀ e, t'.paths.get d = some e → t.paths.get d = some e) ∧
      ((∀ e, t.paths.get d = some e → ∃ r ∈ rs, ∃ now, r.act = .tick now ∧ e.expiresMs ≤ now) →
        ∀ i wire now p t₂, arriving wire = some p → p.destinationHash = d →
          p.handler = .data ∨ p.handler = .linkRequest →
          t'.step (.inbound i wire now) = .ok t₂ → t₂.out = [])) ∧
    ∀ r ∈ rs, ∀ i wire now, r.act = .inbound i wire now → ∀ va j,
      .announceHandler va j ∈ r.post.out → identityHashOf va.publicKey ≠ idHash := by
  refine ⟨?_, ?_⟩
  · intro d hd
    obtain ⟨hknown, hpaths⟩ := knownFor_of_run hrun hb hkeep hd
    refine ⟨hknown, fun e he => (hpaths e he).1, ?_⟩
    rintro hticked i wire now p t₂ hw rfl hk hs
    refine out_of_no_path ?_ hw hk hs
    cases he : t'.paths.get p.destinationHash with
    | none => rfl
    | some e =>
      obtain ⟨hold, hticks⟩ := hpaths e he
      obtain ⟨r, hr, now', ht, hle⟩ := hticked e hold
      have hlt := hticks r hr now' ht
      omega
  · intro r hr i wire now hact va j ho
    obtain ⟨before, after, rfl⟩ := List.append_of_mem hr
    obtain ⟨hbefore, hs, -⟩ := hrun.split_at
    have hb' := isBlackholed_of_run hbefore hb fun r' hr' => hkeep r' (List.mem_append_left _ hr')
    rw [hact] at hs
    obtain ⟨p, ha⟩ := accepts_of_announceHandler hs ho
    exact identity_of_accepts hb' ha

end

open Vectors
attribute [local instance] lib

/-- Alice is blackholed after she has been heard. -/
def aliceBlackholed : List Action := heardAlice ++ [.blackholeIdentity alice.identityHash]

/-- The path has run out when she announces again. -/
def aliceReturns : List Action := [.tick 4000000, .inbound 1 (aliceAnnounceAt 7 0) 5000000]

set_option maxRecDepth 100000 in
theorem aliceBlackholed_state : (relay.steps aliceBlackholed).toOption.map (fun t =>
    (t.isBlackholed alice.identityHash, (t.paths.get aliceDest).map PathEntry.expiresMs,
      (t.steps aliceReturns).toOption.any fun t' =>
        decide (t'.publicKeyFor aliceDest = some alicePub) &&
          (t'.step (.inbound 0 (dataVia bob.identityHash) 6000000)).toOption.isSome)) =
    some (true, some 3601000, true) := by
  decide +kernel

theorem blackholed_fades_alice : ∃ t t' t₂, relay.steps aliceBlackholed = .ok t ∧
    t.steps aliceReturns = .ok t' ∧
    t'.step (.inbound 0 (dataVia bob.identityHash) 6000000) = .ok t₂ ∧ t₂.out = [] := by
  obtain ⟨t, ht, -, hstate⟩ :=
    reachable_of_steps (reachable_new bob true fun _ => Vectors.cfg) aliceBlackholed_state
  obtain ⟨hb, hstate⟩ := Prod.mk.inj hstate
  obtain ⟨hexpires, hreturns⟩ := Prod.mk.inj hstate
  cases hs : t.steps aliceReturns with
  | error e => rw [hs] at hreturns; cases hreturns
  | ok t' =>
    rw [hs] at hreturns
    obtain ⟨hk, hdata⟩ := Bool.and_eq_true_iff.mp hreturns
    have hk := of_decide_eq_true hk
    cases hs₂ : t'.step (.inbound 0 (dataVia bob.identityHash) 6000000) with
    | error e => rw [hs₂] at hdata; cases hdata
    | ok t₂ =>
      obtain ⟨rs, hrun, hacts⟩ := run_of_steps hs
      have hmem : ∀ r ∈ rs, r.act ∈ aliceReturns := fun r hr => hacts ▸ List.mem_map_of_mem hr
      have hkeep : ∀ r ∈ rs, r.act ≠ .unblackholeIdentity alice.identityHash := by
        intro r hr hact
        have hreturn := hmem r hr
        rw [hact] at hreturn
        simp [aliceReturns] at hreturn
      have hknown : t'.KnownFor alice.identityHash aliceDest :=
        ⟨alicePub, hk, by decide +kernel⟩
      obtain ⟨-, -, hcut⟩ := (blackholed_fades hrun hb hkeep).1 aliceDest hknown
      refine ⟨t, t', t₂, ht, hs, hs₂, hcut ?_ 0 _ 6000000 _ t₂ arriving_dataVia_bob rfl
        (.inl (by decide +kernel)) hs₂⟩
      intro e he
      rw [he] at hexpires
      have hticked : Action.tick 4000000 ∈ rs.map Rec.act := by
        rw [hacts]
        exact List.mem_cons_self
      obtain ⟨r, hr, hact⟩ := List.mem_map.mp hticked
      have hexpiry : e.expiresMs = 3601000 := Option.some.inj hexpires
      exact ⟨r, hr, 4000000, hact, hexpiry ▸ by decide⟩

end Transport
end Reticulum
