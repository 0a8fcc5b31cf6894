import Reticulum.Rns.Transport.PayloadLimit

/-!
# What a node holds of announces, and what it may send

A wire that a node puts on the air is a packet that it forwards, an announce of its own, one that
waited for rebroadcast, or an answer from the path table. So what is true of every announce taken in
is true of all that is kept and sent of announces (`Stocks.step`, `Stocks.sends`).
-/

namespace Reticulum
namespace Transport

theorem mem_transmissions {t : Transport} {j : IfaceId} {w : Bytes} :
    (j, w) ∈ t.transmissions ↔ ∃ e ∈ t.out, e.onAir = some (j, w) := List.mem_filterMap

section
variable [CryptoLib]

/-- A destination of the node has built the wire. -/
def Builds (t : Transport) (wire : Bytes) : Prop :=
  ∃ k dest randomPrefix secs appData pathResponse, t.localDestinations.lookup k = some dest ∧
    dest.buildAnnounce randomPrefix secs appData [] pathResponse = .ok wire

/-! ### Own announces -/

/-- The call has transmitted nothing but announces that destinations of `t₀` have built. -/
structure OwnBuilt (t₀ t : Transport) : Prop where
  localDestinations : t.localDestinations = t₀.localDestinations
  built : ∀ k i w, .transmit k i w ∈ t.out → t₀.Builds w

namespace OwnBuilt
variable {t₀ t t' : Transport} {now : Nat}

theorem append {o : List Event} (h : OwnBuilt t₀ t)
    (hlocal : t'.localDestinations = t.localDestinations) (hout : t'.out = t.out ++ o)
    (ho : ∀ k i w, .transmit k i w ∈ o → t.Builds w) : OwnBuilt t₀ t' := by
  refine ⟨hlocal.trans h.localDestinations, ?_⟩
  intro k i w hw
  rw [hout] at hw
  rcases List.mem_append.mp hw with hw | hw
  · exact h.built k i w hw
  · have hb := ho k i w hw
    rwa [Builds, h.localDestinations] at hb

theorem driveAnnounceRebroadcast (h : OwnBuilt t₀ t) (now : Nat) :
    OwnBuilt t₀ (t.driveAnnounceRebroadcast now) := by
  refine List.foldlRecOn (motive := OwnBuilt t₀) _ _ ⟨h.localDestinations, h.built⟩ ?_
  intro t ht e _
  have hall := List.foldlRecOn (motive := OwnBuilt t₀) t.interfaces (fun t i => t.queueOn e i) ht
    fun t ht i _ => ht.append rfl rfl (by simp)
  exact ⟨hall.localDestinations, hall.built⟩

theorem tickInterfaces (h : OwnBuilt t₀ t) (is : List IfaceId) (now : Nat) :
    OwnBuilt t₀ (is.foldl (fun t i => t.tickInterface i now) t) :=
  List.foldlRecOn (motive := OwnBuilt t₀) is (fun t i => t.tickInterface i now) h
    fun t ht i _ => ht.append rfl rfl (by simp)

theorem emitAnnounceForLocal {d a : Bytes} {pr b : Bool} {only : Option IfaceId}
    (h : OwnBuilt t₀ t) (he : t.emitAnnounceForLocal d a pr only = .ok (b, t')) :
    OwnBuilt t₀ t' := by
  cases emitsLocal_of_ok he with
  | silent => exact h
  | @sent dest seedFn wire hdest hseed hwire =>
    obtain ⟨s, heq⟩ := adds_transmitAll { t with seedCalls := t.seedCalls + 1 }
      (if pr then .pathResponse else .ownAnnounce) (only.elim t.interfaces ([·])) wire
    refine h.append (by rw [heq]) (by rw [heq]) ?_
    intro k i w hw
    obtain ⟨j, -, hev⟩ := List.mem_map.mp hw
    cases hev
    exact ⟨_, dest, _, _, a, pr, hdest, hwire⟩

theorem tick (h : t.step (.tick now) = .ok t') : OwnBuilt t t' := by
  obtain ⟨t₁, h₁, h⟩ := bind_eq_ok h
  obtain ⟨⟨sch, t₂⟩, h₂, h₁⟩ := bind_eq_ok h₁
  cases h₁
  cases h
  have hstart : OwnBuilt t { t with out := [] } := ⟨rfl, by simp⟩
  have hsched : OwnBuilt t t₂ := driveSchedules_inv (I := OwnBuilt t) h₂
    (hstart.driveAnnounceRebroadcast now) (fun hu he => hu.emitAnnounceForLocal he)
    fun hu => ⟨hu.localDestinations, hu.built⟩
  have hall := tickInterfaces (t := { t₂ with scheduledAnnounces := sch })
    ⟨hsched.localDestinations, hsched.built⟩ t₂.interfaces now
  exact ⟨hall.localDestinations, hall.built⟩

end OwnBuilt

/-! ### Announces taken in -/

variable {P : Bytes → Prop} {Q : Bytes → PathEntry → Prop}

/-- `P` holds of what waits for rebroadcast, `Q` of the paths. -/
structure Stocks (P : Bytes → Prop) (Q : Bytes → PathEntry → Prop) (t : Transport) : Prop where
  paths : ∀ d e, t.paths.get d = some e → Q d e
  announceTable : ∀ k e, t.announceTable.entries.lookup k = some e → P e.announceWire
  queue : ∀ i, ∀ e ∈ (t.iface i).queue, P e.wire

/-- What a wire can be that a node puts on the air. -/
inductive Sends (P : Bytes → Prop) (Q : Bytes → PathEntry → Prop) (t : Transport) : Bytes → Prop
  | queued {w : Bytes} (h : P w) : Sends P Q t w
  | response {d : Bytes} {e : PathEntry} (h : Q d e) :
    Sends P Q t (e.announceWire.set h2CtxOffset contextPathResponse)
  | own {w : Bytes} (h : t.Builds w) : Sends P Q t w
  | forwarded {q : Packet} (h : q.packetType ≠ .announce) : Sends P Q t q.wireBytes

omit [CryptoLib] in
theorem stocks_new (id : Identity) (enabled : Bool) (cfg : IfaceId → Interface.Config) :
    Stocks P Q (new id enabled cfg) := by
  constructor
  · intro d e he
    cases he
  · intro k e he
    cases he
  · intro i e he
    cases he

variable {t t' : Transport} {i : IfaceId} {wire : Bytes} {now : Nat} {p : Packet}

theorem not_announce_of_handler (h : p.handler ≠ .announce) : p.packetType ≠ .announce :=
  fun ht => h (Packet.handler_eq_announce.mpr ht)

omit [CryptoLib] in
theorem packetType_clamped (q : Packet) (hwMtuBytes : Nat) :
    (q.clamped hwMtuBytes).packetType = q.packetType := rfl

namespace Stocks

theorem inbound (hi : Stocks P Q t) (h : t.step (.inbound i wire now) = .ok t')
    (hP : ∀ p va, arriving wire = some p → t.hasSeen p = false → t.accepts p = some va →
      P (reissued t.localIdentity p).wireBytes)
    (hQ : ∀ p va, arriving wire = some p → t.hasSeen p = false → t.accepts p = some va →
      Q va.destinationHash (t.learnedPath va i p now))
    (hnoted : ∀ d e blob, Q d e → Q d (e.noted blob)) : Stocks P Q t' := by
  constructor
  · intro d e he
    cases step_entry h d with
    | keep hp _ => exact hi.paths d e (hp ▸ he)
    | @takeIn _ _ _ p va _ hw hs ha hd hp _ =>
      subst hd
      cases hp.symm.trans he
      apply hnoted
      rcases t.keptPath_cases va i p now with ⟨-, heq⟩ | hold
      · rw [heq]
        exact hQ p va hw hs ha
      · exact hi.paths _ _ hold
  · intro k e he
    obtain ⟨-, ⟨htable, -⟩ | ⟨p, va, htakes, htable, -⟩⟩ := inbound_queue h
    · rw [htable] at he
      exact hi.announceTable k e he
    · rw [htable, AnnounceTable.put, Dict.lookup_insert_eq] at he
      split at he
      · cases he
        exact hP p va htakes.arrives htakes.unseen htakes.accepts
      · exact hi.announceTable k e he
  · rw [(step_configures h).iface (by simp)]
    exact hi.queue

theorem sends_of_pathRequest (hi : Stocks P Q t) (hp : p.handler = .pathRequest)
    (h : (seen { t with out := [] } p).handlePathRequest i p = .ok t') :
    ∀ j w, (j, w) ∈ t'.transmissions → Sends P Q t w := by
  obtain ⟨l, n, s, o, hans, heq⟩ := handlePathRequest_answers h
  have hout : t'.out = o := by
    rw [heq]
    rfl
  intro j w hw
  obtain ⟨ev, hev, hair⟩ := mem_transmissions.mp hw
  rw [hout] at hev
  cases hans with
  | silent => cases hev
  | own w' hl =>
    cases List.mem_singleton.mp hev
    cases hair
    obtain ⟨k, dest, randomPrefix, secs, hdest, hbuild⟩ :=
      buildAnnounce_of_response (w := w) h hl (by rw [hout]; exact hev) List.not_mem_nil
    exact .own ⟨k, dest, randomPrefix, secs, [], true, hdest, hbuild⟩
  | fromTable e hget =>
    cases List.mem_singleton.mp hev
    cases hair
    exact .response (hi.paths _ e hget)
  | passOn _ =>
    obtain ⟨j', -, rfl⟩ := List.mem_map.mp hev
    cases hair
    exact .forwarded (not_announce_of_handler (by rw [hp]; decide))

theorem sends_of_inbound (hi : Stocks P Q t) (h : t.step (.inbound i wire now) = .ok t') :
    ∀ j w, (j, w) ∈ t'.transmissions → Sends P Q t w := by
  cases step_did h with
  | apart ha _ => cases ha
  | dropped _ =>
    intro j w hw
    cases hw
  | @took _ _ _ p _ hw hs hh =>
    -- what is relayed has the packet type of what came in
    have hroute : ∀ {e o q}, p.handler ≠ .announce → t.route p = some (e, o, q) →
        q.packetType ≠ .announce := by
      intro e o q hk hr
      obtain ⟨h2, -, -, hrelay⟩ := route_eq_some hr
      have hlow := (Packet.hashablePart_eq_iff.mp (relayOf_hashablePart hrelay)).1
      rw [Packet.packetType, packetTypeOf_congr hlow]
      exact not_announce_of_handler hk
    have hone : ∀ {k o w j w'}, ((j, w') ∈ ([.transmit k o w] : List Event).filterMap Event.onAir) →
        w' = w := by
      intro k o w j w' hmem
      obtain ⟨ev, hev, hair⟩ := List.mem_filterMap.mp hmem
      cases List.mem_singleton.mp hev
      cases hair
      rfl
    cases hh with
    | ignored _ =>
      intro j w hw
      cases hw
    | announce hk ha _ =>
      rw [step_inbound_announce hw hs hk] at h
      obtain ⟨s, -, heq⟩ := handleAnnounce_takeIn (t := seen { t with out := [] } p) i now ha
      cases heq.symm.trans h
      intro j w hmem
      obtain ⟨ev, hev, hair⟩ := mem_transmissions.mp hmem
      rcases List.mem_append.mp hev with hev | hev
      · cases hev
      rcases of_mem_announceEvents hev with ⟨u, rfl, -, -⟩ | rfl
      · cases hair
      · cases hair
    | pathRequest hk _ =>
      rw [step_inbound_eq hw hs, dispatch_eq, hk] at h
      exact hi.sends_of_pathRequest hk h
    | data hk hr =>
      intro j w hmem
      rw [hone hmem]
      exact .forwarded (hroute (by rw [hk]; decide) hr)
    | linkRequest hk hr =>
      intro j w hmem
      have htype := hroute (by rw [hk]; decide) hr
      rw [← packetType_clamped] at htype
      rw [hone hmem, maybeClampLrSignalling_wireBytes]
      exact .forwarded htype
    | proof hk _ =>
      intro j w hmem
      obtain ⟨ev, hev, hair⟩ := mem_transmissions.mp hmem
      obtain ⟨f, -, rfl⟩ := List.mem_map.mp hev
      cases hair
      exact .forwarded (not_announce_of_handler (by rw [hk]; decide))
    | linkProof hk _ =>
      intro j w hmem
      rw [hone hmem]
      exact .forwarded (not_announce_of_handler (by rw [hk]; decide))
    | linkData hk _ =>
      intro j w hmem
      rw [hone hmem]
      exact .forwarded (not_announce_of_handler (by rw [hk]; decide))

theorem tick (hi : Stocks P Q t) (h : t.step (.tick now) = .ok t') :
    Stocks P Q t' ∧ ∀ j w, (j, w) ∈ t'.transmissions → Sends P Q t w := by
  have htable : ∀ e ∈ t.announceTable.entries.values, P e.announceWire := by
    intro e he
    obtain ⟨k, hk⟩ := (Dict.mem_values_iff _ _).mp he
    exact hi.announceTable k e hk
  have hqueues : QueuesOnly P t' := QueuesOnly.tick hi.queue htable h
  have hown : OwnBuilt t t' := .tick h
  constructor
  · obtain ⟨sch, s, f, n, o, -, rfl⟩ := tick_frame h
    refine ⟨?_, ?_, hqueues.queue⟩
    · intro d e he
      rw [PathTable.get_evictExpired, Option.filter_eq_some_iff] at he
      exact hi.paths d e he.1
    · intro k e he
      rw [AnnounceTable.popDue, Dict.lookup_retain, Option.filter_eq_some_iff] at he
      exact hi.announceTable k e he.1
  · intro j w hw
    obtain ⟨ev, hev, hair⟩ := mem_transmissions.mp hw
    cases ev with
    | transmit k i w' =>
      cases hair
      exact .own (hown.built k j w hev)
    | drained i w' =>
      cases hair
      exact .queued (hqueues.drained j w hev)
    | _ => cases hair

theorem apart {a : Action} (hi : Stocks P Q t) (h : t.step a = .ok t') (ha : a.isLocal = true) :
    Stocks P Q t' ∧ ∀ j w, (j, w) ∈ t'.transmissions → Sends P Q t w := by
  have hiface : t'.iface = t.iface := by
    refine (step_configures h).iface ?_
    rintro n rfl
    cases ha
  constructor
  · cases step_did h with
    | apart _ hk =>
      constructor
      · rw [hk.paths]
        exact hi.paths
      · rw [hk.announceTable]
        exact hi.announceTable
      · rw [hiface]
        exact hi.queue
    | _ => cases ha
  · intro j w hw
    cases a with
    | inbound i wire now => cases ha
    | tick now => cases ha
    | emitAnnounceForLocal d data pr only =>
      obtain ⟨⟨b, t₁⟩, h₁, h⟩ := map_eq_ok h
      cases h
      have hstart : OwnBuilt t { t with out := [] } := ⟨rfl, by simp⟩
      have hown := hstart.emitAnnounceForLocal h₁
      obtain ⟨n, o, ho, s, heq⟩ := emitAnnounceForLocal_frame h₁
      obtain ⟨ev, hev, hair⟩ := mem_transmissions.mp hw
      cases ev with
      | transmit k i w' =>
        cases hair
        exact .own (hown.built k j w hev)
      | drained i w' =>
        rw [heq] at hev
        cases ho _ hev
      | _ => cases hair
    | _ =>
      cases h
      cases hw

/-- What a node sends of announces is its own, or is what it held of them before the call. -/
theorem sends {a : Action} (hi : Stocks P Q t) (h : t.step a = .ok t') :
    ∀ j w, (j, w) ∈ t'.transmissions → Sends P Q t w := by
  cases a with
  | inbound i wire now => exact hi.sends_of_inbound h
  | tick now => exact (hi.tick h).2
  | _ => exact (hi.apart h rfl).2

/-- What holds of the announces that are taken in holds of all that is kept of them. -/
theorem step {a : Action} (hi : Stocks P Q t) (h : t.step a = .ok t')
    (hP : ∀ i wire now p va, a = .inbound i wire now → arriving wire = some p →
      t.hasSeen p = false → t.accepts p = some va → P (reissued t.localIdentity p).wireBytes)
    (hQ : ∀ i wire now p va, a = .inbound i wire now → arriving wire = some p →
      t.hasSeen p = false → t.accepts p = some va →
      Q va.destinationHash (t.learnedPath va i p now))
    (hnoted : ∀ d e blob, Q d e → Q d (e.noted blob)) : Stocks P Q t' := by
  cases a with
  | inbound i wire now =>
    exact hi.inbound h (fun p va => hP i wire now p va rfl) (fun p va => hQ i wire now p va rfl)
      hnoted
  | tick now => exact (hi.tick h).1
  | _ => exact (hi.apart h rfl).1

end Stocks
end
end Transport
end Reticulum
