import Reticulum.Rns.Announced
import Reticulum.Rns.Transport.Schedule

/-!
# Calls that return

Most of the helpers throw on arguments of the wrong size or header form, and few calls of them are
guarded. The parser, the types of the tables and the header conversions fix these sizes for
everything that arrives; what is left are the announces a node builds of its own destinations.
-/

namespace Reticulum

section
variable [CryptoLib]

/-- What the owner of a node may call: a destination comes from its constructor and owns a private
key, and a seed function gives prefixes of five bytes. -/
def Action.Permitted : Action → Prop
  | .registerLocalDestination dest =>
    (∃ identity appName, Destination.new identity appName = .ok dest) ∧
      dest.identity.privateKey.length = privKeyLen
  | .setAnnounceSeedFn fn => ∀ f, fn = some f → ∀ n, (f n).randomPrefix.length = 5
  | _ => True

theorem Destination.length_destinationHash_of_new {identity : Identity} {appName : Bytes}
    {d : Destination} (h : Destination.new identity appName = .ok d) :
    d.destinationHash.length = destHashLen := by
  obtain ⟨destHash, hdest, h⟩ := bind_eq_ok h
  cases h
  unfold Identity.destinationHashFor at hdest
  split at hdest
  · cases hdest
  · cases hdest
    exact Identity.length_destHashOf _ _

namespace Transport

/-- Every announce the node can be made to build has arguments of the right sizes. -/
structure Equipped (t : Transport) : Prop where
  destinations : ∀ k d, t.localDestinations.lookup k = some d →
    d.destinationHash.length = destHashLen ∧ d.identity.privateKey.length = privKeyLen
  seeds : ∀ f, t.announceSeedFn = some f → ∀ n, (f n).randomPrefix.length = 5

variable {t t' : Transport}

omit [CryptoLib] in
theorem Equipped.congr (h : Equipped t) (hd : t'.localDestinations = t.localDestinations)
    (hs : t'.announceSeedFn = t.announceSeedFn) : Equipped t' := by
  constructor
  · rw [hd]
    exact h.destinations
  · rw [hs]
    exact h.seeds

omit [CryptoLib] in
theorem equipped_new (id : Identity) (enabled : Bool) (cfg : IfaceId → Interface.Config) :
    Equipped (new id enabled cfg) := by
  constructor
  · intro k d h
    cases h
  · intro f h
    cases h

/-- A local destination was there before the call, or the call registered it. -/
theorem localDestination_of_step {a : Action} {k : HexString} {d : Destination}
    (h : t.step a = .ok t') (hd : t'.localDestinations.lookup k = some d) :
    t.localDestinations.lookup k = some d ∨ a = .registerLocalDestination d := by
  rcases (step_configures h).localDestinations with hsame | ⟨dest, rfl, hadd⟩
  · exact .inl (hsame ▸ hd)
  rw [hadd, Dict.lookup_emplace] at hd
  split at hd
  · rename_i hk
    -- a destination that is registered already stays
    cases hold : t.localDestinations.lookup (keyOf dest.destinationHash) with
    | none =>
      rw [hold] at hd
      cases hd
      exact .inr rfl
    | some d' =>
      rw [hold] at hd
      cases hd
      exact .inl (hk ▸ hold)
  · exact .inl hd

theorem Equipped.step {a : Action} (h : Equipped t) (ha : a.Permitted) (hs : t.step a = .ok t') :
    Equipped t' := by
  constructor
  · intro k d hd
    rcases localDestination_of_step hs hd with hold | rfl
    · exact h.destinations k d hold
    · obtain ⟨⟨identity, appName, hnew⟩, hpriv⟩ := ha
      exact ⟨Destination.length_destinationHash_of_new hnew, hpriv⟩
  · intro f hf
    rcases (step_configures hs).announceSeedFn with hold | ⟨fn, rfl, hnew⟩
    · exact h.seeds f (hold ▸ hf)
    · exact ha f (hnew ▸ hf)

theorem emitAnnounceForLocal_returns (h : Equipped t) (d a : Bytes) (pr : Bool)
    (only : Option IfaceId) : ∃ r, t.emitAnnounceForLocal d a pr only = .ok r := by
  unfold emitAnnounceForLocal
  cases hd : t.localDestinations.lookup (keyOf d) with
  | none => exact ⟨_, rfl⟩
  | some dest =>
    cases hs : t.announceSeedFn with
    | none => exact ⟨_, rfl⟩
    | some fn =>
      obtain ⟨hdest, hpriv⟩ := h.destinations _ _ hd
      have hprefix := h.seeds fn hs t.seedCalls
      obtain ⟨wire, hwire⟩ : ∃ wire, dest.buildAnnounce (fn t.seedCalls).randomPrefix
          (fn t.seedCalls).unixSeconds a [] pr = .ok wire :=
        Destination.exists_buildAnnounce hpriv hdest hprefix (.inl rfl)
      simp only [hwire]
      cases only with
      | none => exact ⟨_, rfl⟩
      | some i => exact ⟨_, rfl⟩

theorem handlePathRequest_returns (h : Equipped t) (i : IfaceId) (p : Packet) :
    ∃ t', t.handlePathRequest i p = .ok t' := by
  simp only [handlePathRequest]
  split
  · exact ⟨_, rfl⟩
  split
  · exact ⟨_, rfl⟩
  split
  · exact ⟨_, rfl⟩
  split
  · split
    · exact ⟨_, rfl⟩
    · generalize hu : ({ t.count .pathRequestsReceived with prTags := _ } : Transport) = u
      have hequipped : Equipped u := by
        rw [← hu]
        exact h.congr rfl rfl
      obtain ⟨r, hr⟩ := emitAnnounceForLocal_returns hequipped (p.data.slice 0 16) [] true (some i)
      rw [hr]
      exact ⟨_, rfl⟩
  · split
    · exact ⟨_, rfl⟩
    · exact ⟨_, rfl⟩
    · exact ⟨_, rfl⟩

theorem dispatch_returns (h : Equipped t) (i : IfaceId) (p : Packet) (now : Nat) :
    ∃ t', t.dispatch i p now = .ok t' := by
  rw [dispatch_eq]
  cases p.handler with
  | announce =>
    cases ha : t.accepts p with
    | none =>
      obtain ⟨s, hs⟩ := handleAnnounce_of_accepts_none i now ha
      exact ⟨_, hs⟩
    | some va =>
      obtain ⟨s, -, hs⟩ := handleAnnounce_takeIn i now ha
      exact ⟨_, hs⟩
  | pathRequest => exact handlePathRequest_returns h i p
  | linkData => exact ⟨_, rfl⟩
  | data =>
    cases hr : t.route p with
    | none =>
      obtain ⟨s, hs⟩ := handleDataForward_of_route_none i now hr
      exact ⟨_, hs⟩
    | some eoq =>
      obtain ⟨s, hs⟩ := handleDataForward_of_route i now hr
      exact ⟨_, hs⟩
  | linkRequest =>
    cases hr : t.route p with
    | none => exact ⟨_, handleLinkRequestForward_of_route_none i now hr⟩
    | some eoq =>
      obtain ⟨s, hs⟩ := handleLinkRequestForward_of_route i now hr
      exact ⟨_, hs⟩
  | linkProof => exact ⟨_, rfl⟩
  | proof => exact ⟨_, rfl⟩

theorem inbound_returns (h : Equipped t) (i : IfaceId) (wire : Bytes) (now : Nat) :
    ∃ t', t.inbound i wire now = .ok t' := by
  cases hw : arriving wire with
  | none =>
    obtain ⟨s, hs⟩ := inbound_of_arriving_none t i now hw
    exact ⟨_, hs⟩
  | some p =>
    rw [inbound_of_arriving t i now hw]
    split
    · exact ⟨_, rfl⟩
    · have hseen : Equipped (t.seen p) := h.congr rfl rfl
      exact dispatch_returns hseen i p now

theorem driveSchedule_returns (h : Equipped t) (now : Nat) (s : ScheduledAnnounce) :
    ∃ r, driveSchedule now s t = .ok r := by
  unfold driveSchedule
  split
  · exact ⟨_, rfl⟩
  cases s.fn with
  | none =>
    obtain ⟨r, hr⟩ := emitAnnounceForLocal_returns h s.destHash [] false none
    simp only [hr]
    exact ⟨_, rfl⟩
  | some fn =>
    obtain ⟨r, hr⟩ := emitAnnounceForLocal_returns h s.destHash (fn s.fnCalls) false none
    simp only [hr]
    exact ⟨_, rfl⟩

theorem driveSchedules_returns (h : Equipped t) (now : Nat) (l : List ScheduledAnnounce) :
    ∃ r, driveSchedules now l t = .ok r := by
  induction l generalizing t with
  | nil => exact ⟨_, rfl⟩
  | cons s l ih =>
    obtain ⟨⟨s', t₁⟩, h₁⟩ := driveSchedule_returns h now s
    have hequipped : Equipped t₁ := by
      refine driveSchedule_inv (I := Equipped) h₁ h ?_ fun hu => hu.congr rfl rfl
      intro d a b u u' hu he
      obtain ⟨n, o, -, sf, rfl⟩ := emitAnnounceForLocal_frame he
      exact hu.congr rfl rfl
    obtain ⟨r, hr⟩ := ih hequipped
    simp only [driveSchedules, h₁, hr, bind, Except.bind]
    exact ⟨_, rfl⟩

theorem tick_returns (h : Equipped t) (now : Nat) : ∃ t', t.tick now = .ok t' := by
  obtain ⟨s, f, n, o, -, hr⟩ := t.driveAnnounceRebroadcast_idles now
  have hequipped : Equipped (t.driveAnnounceRebroadcast now) := by
    rw [hr]
    exact h.congr rfl rfl
  obtain ⟨r, hs⟩ := driveSchedules_returns hequipped now
    (t.driveAnnounceRebroadcast now).scheduledAnnounces
  simp only [tick, driveScheduledAnnounces, hs, bind, Except.bind]
  exact ⟨_, rfl⟩

/-- No call of a node that is equipped throws. -/
theorem step_returns (h : Equipped t) (a : Action) : ∃ t', t.step a = .ok t' := by
  have hout : Equipped { t with out := [] } := h.congr rfl rfl
  cases a with
  | inbound i wire now => exact inbound_returns hout i wire now
  | tick now => exact tick_returns hout now
  | emitAnnounceForLocal d data pr only =>
    obtain ⟨r, hr⟩ := emitAnnounceForLocal_returns hout d data pr only
    refine ⟨r.2, ?_⟩
    show (emitAnnounceForLocal { t with out := [] } d data pr only).map Prod.snd = .ok r.2
    rw [hr]
    rfl
  | _ => exact ⟨_, rfl⟩

theorem steps_return (h : Equipped t) {as : List Action} (has : ∀ a ∈ as, a.Permitted) :
    ∃ t', t.steps as = .ok t' ∧ Equipped t' := by
  induction as generalizing t with
  | nil => exact ⟨t, rfl, h⟩
  | cons a as ih =>
    obtain ⟨t₁, h₁⟩ := step_returns h a
    obtain ⟨t', hsteps, ht'⟩ :=
      ih (h.step (has a List.mem_cons_self) h₁) fun b hb => has b (List.mem_cons_of_mem a hb)
    refine ⟨t', ?_, ht'⟩
    rw [steps, List.foldlM_cons, h₁]
    exact hsteps

/-- Whatever the owner of a node calls and whatever arrives on its interfaces, no call throws. -/
theorem inbound_never_throws (id : Identity) (enabled : Bool) (cfg : IfaceId → Interface.Config)
    {as : List Action} (has : ∀ a ∈ as, a.Permitted) :
    ∃ t, (new id enabled cfg).steps as = .ok t ∧
      ∀ i wire now, ∃ t', t.step (.inbound i wire now) = .ok t' := by
  obtain ⟨t, hsteps, ht⟩ := steps_return (equipped_new id enabled cfg) has
  refine ⟨t, hsteps, ?_⟩
  intro i wire now
  exact step_returns ht (.inbound i wire now)

end Transport
end

namespace Transport
open Vectors
attribute [local instance] lib

theorem new_bobDest : Destination.new bob [98, 111, 98] = .ok bobDest := by
  unfold Destination.new Identity.destinationHashFor
  rw [if_neg (by decide)]
  rfl

/-- Bob announces a destination of his own every second, and serves it. -/
theorem inbound_never_throws_bob : ∃ t, relay.steps everySecond = .ok t ∧
    ∀ i wire now, ∃ t', t.step (.inbound i wire now) = .ok t' := by
  refine inbound_never_throws bob true (fun _ => Vectors.cfg) ?_
  intro a ha
  simp only [everySecond, List.mem_cons, List.not_mem_nil, or_false] at ha
  rcases ha with rfl | rfl | rfl | rfl
  · trivial
  · exact ⟨⟨bob, _, new_bobDest⟩, by decide⟩
  · rintro f hf n
    cases hf
    rfl
  · trivial

end Transport
end Reticulum
