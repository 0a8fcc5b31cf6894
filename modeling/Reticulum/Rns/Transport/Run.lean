import Reticulum.Lib.Run
import Reticulum.Rns.Transport.Calls

/-!
# Runs of one node

`Reachable` is closed under every call of the API. `step_did` says once what a call can do; every
invariant of a node is a case analysis of `Did`.
-/

namespace Reticulum

/-- The calls other than `inbound` and `tick`: registration, scheduling, the blackhole list, and an
announce sent on request. -/
def Action.isLocal : Action → Bool
  | .inbound _ _ _ | .tick _ => false
  | _ => true

def Action.time? : Action → Option Nat
  | .inbound _ _ now | .tick now => some now
  | _ => none

def Timely (rs : List (Rec Transport Action)) : Prop :=
  (rs.filterMap fun r => r.act.time?).Pairwise (· ≤ ·)

theorem Timely.le {l₁ l₂ : List (Rec Transport Action)} {r : Rec Transport Action} {τ : Nat}
    (h : Timely (l₁ ++ r :: l₂)) (hr : r.act.time? = some τ) :
    ∀ r' ∈ l₂, ∀ τ', r'.act.time? = some τ' → τ ≤ τ' := by
  intro r' hr' τ' hτ'
  rw [Timely, List.filterMap_append, List.pairwise_append] at h
  have h₂ := h.2.1
  simp only [List.filterMap_cons, hr, List.pairwise_cons] at h₂
  exact h₂.1 τ' (List.mem_filterMap.mpr ⟨r', hr', hτ'⟩)

theorem Timely.of_append {l₁ l₂ : List (Rec Transport Action)} (h : Timely (l₁ ++ l₂)) :
    Timely l₁ := by
  rw [Timely, List.filterMap_append] at h
  exact (List.pairwise_append.mp h).1

namespace Transport
variable [CryptoLib]

def Steps (t : Transport) (a : Action) (t' : Transport) : Prop := t.step a = .ok t'

def Reachable (t : Transport) : Prop :=
  ∃ id enabled cfg rs, Run Steps (new id enabled cfg) rs t

theorem reachable_new (id : Identity) (enabled : Bool) (cfg : IfaceId → Interface.Config) :
    Reachable (new id enabled cfg) := ⟨id, enabled, cfg, [], .nil⟩

theorem Reachable.run {t t' : Transport} {rs : List (Rec Transport Action)} (h : Reachable t)
    (hr : Run Steps t rs t') : Reachable t' := by
  obtain ⟨id, enabled, cfg, rs₀, h₀⟩ := h
  exact ⟨id, enabled, cfg, _, h₀.append hr⟩

theorem Reachable.step {t t' : Transport} {a : Action} (h : Reachable t) (hs : t.step a = .ok t') :
    Reachable t' := h.run (.single hs)

/-- What holds of a new node and survives every call holds of every reachable one. -/
theorem Reachable.inv {I : Transport → Prop} {t : Transport} (h : Reachable t)
    (h₀ : ∀ id enabled cfg, I (new id enabled cfg))
    (hstep : ∀ t a t', I t → t.step a = .ok t' → I t') : I t := by
  obtain ⟨id, enabled, cfg, rs, hr⟩ := h
  exact hr.inv (h₀ id enabled cfg) hstep

def steps (t : Transport) (as : List Action) : Except Exn Transport := as.foldlM step t

/-- What a call to `inbound` does with a new packet. -/
theorem step_inbound_eq {t : Transport} {i : IfaceId} {wire : Bytes} {now : Nat} {p : Packet}
    (hw : arriving wire = some p) (hs : t.hasSeen p = false) :
    t.step (.inbound i wire now) = (seen { t with out := [] } p).dispatch i p now :=
  inbound_of_not_hasSeen (t := { t with out := [] }) hw hs

theorem step_inbound_announce {t : Transport} {i : IfaceId} {wire : Bytes} {now : Nat} {p : Packet}
    (hw : arriving wire = some p) (hs : t.hasSeen p = false) (hk : p.handler = .announce) :
    t.step (.inbound i wire now) = (seen { t with out := [] } p).handleAnnounce i p now := by
  rw [step_inbound_eq hw hs, dispatch_eq, hk]

/-- A packet the node has seen does nothing but count. -/
theorem step_of_hasSeen {t : Transport} {i : IfaceId} {wire : Bytes} {p : Packet} (now : Nat)
    (hw : arriving wire = some p) (hs : t.hasSeen p = true) :
    ∃ s, t.step (.inbound i wire now) = .ok { t with stats := s, out := [] } :=
  inbound_of_hasSeen (t := { t with out := [] }) hw hs

theorem steps_cons {t t' : Transport} {a : Action} {as : List Action}
    (h : t.steps (a :: as) = .ok t') : ∃ t₁, t.step a = .ok t₁ ∧ t₁.steps as = .ok t' :=
  bind_eq_ok h

theorem steps_concat {t t₁ t' : Transport} {as : List Action} {a : Action} (h : t.steps as = .ok t₁)
    (ha : t₁.step a = .ok t') : t.steps (as ++ [a]) = .ok t' := by
  unfold steps at h ⊢
  rw [List.foldlM_append, h]
  change t₁.step a >>= pure = _
  rw [ha]
  rfl

theorem steps_of_isSome {t : Transport} {as : List Action}
    (h : (t.steps as).toOption.isSome = true) : ∃ t', t.steps as = .ok t' := by
  cases hs : t.steps as with
  | error e => rw [hs] at h; cases h
  | ok t' => exact ⟨t', rfl⟩

theorem run_of_steps {t t' : Transport} {as : List Action} (h : t.steps as = .ok t') :
    ∃ rs, Run Steps t rs t' ∧ rs.map Rec.act = as := by
  induction as generalizing t with
  | nil => cases h; exact ⟨[], .nil, rfl⟩
  | cons a as ih =>
    obtain ⟨t₁, h₁, h⟩ := bind_eq_ok h
    obtain ⟨rs, hr, rfl⟩ := ih h
    exact ⟨_, hr.cons h₁, rfl⟩

theorem reachable_of_steps {β : Type} {t : Transport} {as : List Action} {f : Transport → β} {b : β}
    (h : Reachable t) (hf : (t.steps as).toOption.map f = some b) :
    ∃ t', t.steps as = .ok t' ∧ Reachable t' ∧ f t' = b := by
  cases hs : t.steps as with
  | error e => rw [hs] at hf; cases hf
  | ok t' =>
    rw [hs] at hf
    obtain ⟨rs, hr, -⟩ := run_of_steps hs
    exact ⟨t', rfl, h.run hr, Option.some.inj hf⟩

/-! ### What a call can do -/

/-- `t'` has the tables of `t`, and the call relayed nothing. -/
structure Keeps (t t' : Transport) : Prop where
  localIdentity : t'.localIdentity = t.localIdentity
  transportEnabled : t'.transportEnabled = t.transportEnabled
  paths : t'.paths = t.paths
  hashlist : t'.hashlist = t.hashlist
  announceTable : t'.announceTable = t.announceTable
  reverseTable : t'.reverseTable = t.reverseTable
  linkTable : t'.linkTable = t.linkTable
  knownDestinations : t'.knownDestinations = t.knownDestinations
  out : ∀ e ∈ t'.out, e.forwards = false

def Ignores (t : Transport) (i : IfaceId) (p : Packet) : Prop :=
  match p.handler with
  | .announce => t.accepts p = none
  | .pathRequest => False
  | .linkData => t.linkRoute i p = none
  | .data | .linkRequest => t.route p = none
  | .linkProof => t.provenLink i p = none
  | .proof => t.proofRoute i p = none

/-- What the handler of a new packet can do. -/
inductive Handled (t : Transport) (i : IfaceId) (p : Packet) (now : Nat) : Transport → Prop
  | ignored {s : Counter → Nat} (h : t.Ignores i p) :
    Handled t i p now { t with stats := s, hashlist := t.recorded p, out := [] }
  | announce {va : ValidatedAnnounce} {s : Counter → Nat} {o : List Event}
    (hk : p.handler = .announce) (h : t.accepts p = some va) (ho : ∀ e ∈ o, e.forwards = false) :
    Handled t i p now { t with
      stats := s
      hashlist := t.recorded p
      out := o
      knownDestinations := t.knownDestinations.insert (keyOf va.destinationHash) va.publicKey
      paths := ((t.learnedPaths va i p now).noteRandomBlob va.destinationHash va.randomHash).2
      announceTable :=
        if t.transportEnabled ∧ p.context ≠ contextPathResponse ∧
          ((t.learnedPaths va i p now).noteRandomBlob va.destinationHash va.randomHash).1
        then t.announceTable.put (t.queuedAnnounce va i p now) else t.announceTable }
  | pathRequest {l : PacketHashList} {n : Nat} {s : Counter → Nat} {o : List Event}
    (hk : p.handler = .pathRequest) (ho : ∀ e ∈ o, e.forwards = false) :
    Handled t i p now { t with
      stats := s, hashlist := t.recorded p, out := o, prTags := l, seedCalls := n }
  | data {e : PathEntry} {o : IfaceId} {q : Packet} {s : Counter → Nat} (hk : p.handler = .data)
    (h : t.route p = some (e, o, q)) :
    Handled t i p now { t with
      stats := s
      hashlist := t.recorded p
      out := [.transmit .dataForward o q.wireBytes]
      reverseTable := t.reverseTable.put ⟨proofHash p, some i, some o, now⟩ }
  | linkRequest {e : PathEntry} {o : IfaceId} {q : Packet} {s : Counter → Nat}
    (hk : p.handler = .linkRequest) (h : t.route p = some (e, o, q)) :
    Handled t i p now { t with
      stats := s
      hashlist := t.recorded p
      out := [.transmit .linkForward o
        (maybeClampLrSignalling q.wireBytes (t.iface o).hwMtuBytes)]
      linkTable := t.linkTable.put (requestedLink p e i o now) }
  | proof {e : ReverseEntry} {s : Counter → Nat} (hk : p.handler = .proof)
    (h : t.proofRoute i p = some e) :
    Handled t i p now { t with
      stats := s
      hashlist := t.recorded p
      out := e.receivedIf.toList.map fun f => .transmit .proofForward f p.wireBytes
      reverseTable := (t.reverseTable.pop p.destinationHash).2 }
  | linkProof {e : LinkEntry} {f : IfaceId} {s : Counter → Nat} (hk : p.handler = .linkProof)
    (h : t.provenLink i p = some (e, f)) :
    Handled t i p now { t with
      stats := s
      hashlist := t.recorded p
      out := [.transmit .linkForward f p.wireBytes]
      linkTable := t.linkTable.getMut p.destinationHash fun e =>
        { e with validated := true, lastActivityMs := now } }
  | linkData {e : LinkEntry} {f : IfaceId} {s : Counter → Nat} (hk : p.handler = .linkData)
    (h : t.linkRoute i p = some (e, f)) :
    Handled t i p now { t with
      stats := s
      hashlist := t.recorded p
      out := [.transmit .linkForward f p.wireBytes]
      linkTable := t.relayedLinks p now }

/-- What a call can do. -/
inductive Did (t : Transport) : Action → Transport → Prop
  | apart {a : Action} {t' : Transport} (ha : a.isLocal = true) (h : Keeps t t') : Did t a t'
  | dropped {i : IfaceId} {wire : Bytes} {now : Nat} {s : Counter → Nat}
    (h : ∀ p, arriving wire = some p → t.hasSeen p = true) :
    Did t (.inbound i wire now) { t with stats := s, out := [] }
  | took {i : IfaceId} {wire : Bytes} {now : Nat} {p : Packet} {t' : Transport}
    (h : arriving wire = some p) (hs : t.hasSeen p = false) (hh : Handled t i p now t') :
    Did t (.inbound i wire now) t'
  | ticked {now : Nat} {sch : List ScheduledAnnounce} {s : Counter → Nat}
    {f : IfaceId → Interface} {n : Nat} {o : List Event} (ho : ∀ e ∈ o, e.forwards = false) :
    Did t (.tick now) { t with
      announceTable := (t.announceTable.popDue now).2
      scheduledAnnounces := sch
      stats := s
      iface := f
      seedCalls := n
      out := o
      paths := (t.paths.evictExpired now).2
      reverseTable := (t.reverseTable.evictAged now).2
      linkTable := ((t.linkTable.evictUnproven now).2.evictStale now linkStaleThresholdMs).2
      hashlist := t.hashlist.purgeIfOverCap.2
      prTags := t.prTags.purgeIfOverCap.2 }

theorem handled_of_dispatch {t t' : Transport} {i : IfaceId} {p : Packet} {now : Nat}
    (h : (seen { t with out := [] } p).dispatch i p now = .ok t') : Handled t i p now t' := by
  rw [dispatch_eq] at h
  cases hk : p.handler with
  | announce =>
    rw [hk] at h
    cases ha : t.accepts p with
    | none =>
      obtain ⟨s, hs⟩ := handleAnnounce_of_accepts_none (t := seen { t with out := [] } p) i now ha
      cases hs.symm.trans h
      exact .ignored (by simp only [Ignores, hk, ha])
    | some va =>
      obtain ⟨o, t₁, ho, ⟨s, rfl⟩, hs⟩ :=
        handleAnnounce_of_accepts (t := seen { t with out := [] } p) i now ha
      cases hs.symm.trans h
      exact .announce hk ha ho
  | pathRequest =>
    rw [hk] at h
    obtain ⟨l, n, o, ho, s, rfl⟩ := handlePathRequest_frame h
    exact .pathRequest hk ho
  | linkData =>
    rw [hk] at h
    cases hr : t.linkRoute i p with
    | none =>
      obtain ⟨s, hs⟩ :=
        handleLinkDataForward_of_linkRoute_none (t := seen { t with out := [] } p) now hr
      cases (congrArg Except.ok hs).symm.trans h
      exact .ignored (by simp only [Ignores, hk, hr])
    | some ef =>
      obtain ⟨s, hs⟩ := handleLinkDataForward_of_linkRoute (t := seen { t with out := [] } p) now hr
      cases (congrArg Except.ok hs).symm.trans h
      exact .linkData hk hr
  | data =>
    rw [hk] at h
    cases hr : t.route p with
    | none =>
      obtain ⟨s, hs⟩ :=
        handleDataForward_of_route_none (t := seen { t with out := [] } p) i now hr
      cases hs.symm.trans h
      exact .ignored (by simp only [Ignores, hk, hr])
    | some eoq =>
      obtain ⟨s, hs⟩ := handleDataForward_of_route (t := seen { t with out := [] } p) i now hr
      cases hs.symm.trans h
      exact .data hk hr
  | linkRequest =>
    rw [hk] at h
    cases hr : t.route p with
    | none =>
      have hs := handleLinkRequestForward_of_route_none (t := seen { t with out := [] } p) i now hr
      cases hs.symm.trans h
      exact .ignored (by simp only [Ignores, hk, hr])
    | some eoq =>
      obtain ⟨s, hs⟩ :=
        handleLinkRequestForward_of_route (t := seen { t with out := [] } p) i now hr
      cases hs.symm.trans h
      exact .linkRequest hk hr
  | linkProof =>
    rw [hk] at h
    cases hr : t.provenLink i p with
    | none =>
      obtain ⟨s, hs⟩ :=
        handleLinkProofForward_of_provenLink_none (t := seen { t with out := [] } p) now hr
      cases (congrArg Except.ok hs).symm.trans h
      exact .ignored (by simp only [Ignores, hk, hr])
    | some ef =>
      obtain ⟨s, hs⟩ :=
        handleLinkProofForward_of_provenLink (t := seen { t with out := [] } p) now hr
      cases (congrArg Except.ok hs).symm.trans h
      exact .linkProof hk hr
  | proof =>
    rw [hk] at h
    cases hr : t.proofRoute i p with
    | none =>
      obtain ⟨s, hs⟩ := handleProofForward_of_proofRoute_none (t := seen { t with out := [] } p) hr
      cases (congrArg Except.ok hs).symm.trans h
      exact .ignored (by simp only [Ignores, hk, hr])
    | some e =>
      obtain ⟨s, hs⟩ := handleProofForward_of_proofRoute (t := seen { t with out := [] } p) hr
      cases (congrArg Except.ok hs).symm.trans h
      exact .proof hk hr

theorem step_did {t t' : Transport} {a : Action} (h : t.step a = .ok t') : Did t a t' := by
  cases a with
  | inbound i wire now =>
    cases hw : arriving wire with
    | none =>
      obtain ⟨s, hs⟩ := inbound_of_arriving_none { t with out := [] } i now hw
      cases hs.symm.trans h
      exact .dropped (by simp [hw])
    | some p =>
      cases hs : t.hasSeen p with
      | true =>
        have hd : ∃ s, inbound { t with out := [] } i wire now =
            .ok { { t with out := [] } with stats := s } := inbound_of_hasSeen hw hs
        obtain ⟨s, hs'⟩ := hd
        cases hs'.symm.trans h
        exact .dropped (by simp [hw, hs])
      | false =>
        exact .took hw hs (handled_of_dispatch
          ((inbound_of_not_hasSeen (t := { t with out := [] }) hw hs).symm.trans h))
  | tick now =>
    obtain ⟨sch, s, f, n, o, ho, rfl⟩ := tick_frame h
    exact .ticked ho
  | emitAnnounceForLocal d data pr only =>
    change ({ t with out := [] }.emitAnnounceForLocal d data pr only).map Prod.snd = .ok t' at h
    cases he : emitAnnounceForLocal { t with out := [] } d data pr only with
    | error e => rw [he] at h; cases h
    | ok r =>
      rw [he] at h
      obtain ⟨n, o, ho, s, hr⟩ := emitAnnounceForLocal_frame he
      cases h
      exact .apart rfl (hr ▸ ⟨rfl, rfl, rfl, rfl, rfl, rfl, rfl, rfl,
        fun e he => Event.forwards_of_emits (ho e he)⟩)
  | _ => cases h; exact .apart rfl ⟨rfl, rfl, rfl, rfl, rfl, rfl, rfl, rfl, by simp⟩

/-- What a call does to what the owner of the node has set up: only its own kind of call changes a
thing, and only a tick moves the schedules on and drives the interfaces. -/
structure Configures (t : Transport) (a : Action) (t' : Transport) : Prop where
  localDestinations : t'.localDestinations = t.localDestinations ∨
    ∃ dest, a = .registerLocalDestination dest ∧ t'.localDestinations =
      Dict.emplace (keyOf dest.destinationHash) dest t.localDestinations
  announceSeedFn : t'.announceSeedFn = t.announceSeedFn ∨
    ∃ fn, a = .setAnnounceSeedFn fn ∧ t'.announceSeedFn = fn
  scheduledAnnounces : (∀ now, a ≠ .tick now) →
    ∃ l, t'.scheduledAnnounces = t.scheduledAnnounces ++ l
  iface : (∀ now, a ≠ .tick now) → t'.iface = t.iface

omit [CryptoLib] in
theorem Configures.of_eq {t t' : Transport} {a : Action}
    (hd : t'.localDestinations = t.localDestinations) (hf : t'.announceSeedFn = t.announceSeedFn)
    (hs : t'.scheduledAnnounces = t.scheduledAnnounces) (hi : t'.iface = t.iface) :
    Configures t a t' :=
  ⟨.inl hd, .inl hf, fun _ => ⟨[], by rw [hs, List.append_nil]⟩, fun _ => hi⟩

theorem step_configures {t t' : Transport} {a : Action} (h : t.step a = .ok t') :
    Configures t a t' := by
  cases a with
  | inbound i wire now =>
    cases step_did h with
    | apart ha _ => cases ha
    | dropped _ => exact .of_eq rfl rfl rfl rfl
    | took _ _ hh => cases hh <;> exact .of_eq rfl rfl rfl rfl
  | tick now =>
    obtain ⟨sch, s, f, n, o, -, rfl⟩ := tick_frame h
    exact ⟨.inl rfl, .inl rfl, fun ha => absurd rfl (ha now), fun ha => absurd rfl (ha now)⟩
  | emitAnnounceForLocal d data pr only =>
    obtain ⟨⟨b, t₁⟩, h₁, h⟩ := map_eq_ok h
    obtain ⟨n, o, -, s, rfl⟩ := emitAnnounceForLocal_frame h₁
    cases h
    exact .of_eq rfl rfl rfl rfl
  | registerLocalDestination dest =>
    cases h
    exact ⟨.inr ⟨dest, rfl, rfl⟩, .inl rfl, fun _ => ⟨[], by rw [List.append_nil]⟩, fun _ => rfl⟩
  | setAnnounceSeedFn fn =>
    cases h
    exact ⟨.inl rfl, .inr ⟨fn, rfl, rfl⟩, fun _ => ⟨[], by rw [List.append_nil]⟩, fun _ => rfl⟩
  | scheduleAnnounce d p fn offset =>
    cases h
    exact ⟨.inl rfl, .inl rfl, fun _ => ⟨[_], rfl⟩, fun _ => rfl⟩
  | _ =>
    cases h
    exact .of_eq rfl rfl rfl rfl

theorem step_localIdentity {t t' : Transport} {a : Action} (h : t.step a = .ok t') :
    t'.localIdentity = t.localIdentity := by
  cases step_did h with
  | apart _ hk => exact hk.localIdentity
  | dropped _ => rfl
  | took _ _ hh => cases hh <;> rfl
  | ticked _ => rfl

theorem step_transportEnabled {t t' : Transport} {a : Action} (h : t.step a = .ok t') :
    t'.transportEnabled = t.transportEnabled := by
  cases step_did h with
  | apart _ hk => exact hk.transportEnabled
  | dropped _ => rfl
  | took _ _ hh => cases hh <;> rfl
  | ticked _ => rfl

theorem localIdentity_of_run {t t' : Transport} {rs : List (Rec Transport Action)}
    (hrun : Run Steps t rs t') : t'.localIdentity = t.localIdentity := by
  refine hrun.inv (I := fun s => s.localIdentity = t.localIdentity) rfl ?_
  intro s a s' hs h
  exact (step_localIdentity h).trans hs

theorem steps_localIdentity {t t' : Transport} {as : List Action} (h : t.steps as = .ok t') :
    t'.localIdentity = t.localIdentity := by
  obtain ⟨rs, hr, -⟩ := run_of_steps h
  exact localIdentity_of_run hr

end Transport
end Reticulum
