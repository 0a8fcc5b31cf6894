import Reticulum.Rns.Transport.Handing

/-!
# The schedules beside the rest of a node

Only `tick` looks at the schedules, and of a callback it sees the next result. A node whose callback
is replaced by another with the same next result goes through the same steps.
-/

namespace Reticulum

/-- The schedule with these results for its callback, if it has one. -/
@[simps]
def ScheduledAnnounce.withFn (s : ScheduledAnnounce) (fn : Nat → Bytes) : ScheduledAnnounce :=
  { s with fn := s.fn.map fun _ => fn }

/-- The call, with these results for the callback it schedules. -/
def Action.withFn (a : Action) (fn : Nat → Bytes) : Action :=
  match a with
  | .scheduleAnnounce destHash period f offset =>
    .scheduleAnnounce destHash period (f.map fun _ => fn) offset
  | a => a

/-- What an event sends of the node itself. -/
def Event.own : Event → Option (IfaceId × Bytes)
  | .transmit .ownAnnounce i wire => some (i, wire)
  | _ => none

/-- What its callback returns next. -/
def ScheduledAnnounce.appData (s : ScheduledAnnounce) : Bytes :=
  match s.fn with
  | some fn => fn s.fnCalls
  | none => []

/-- The schedule after it was due at `now`. -/
def ScheduledAnnounce.fired (s : ScheduledAnnounce) (now : Nat) : ScheduledAnnounce :=
  { s with
    fnCalls := if s.fn.isSome then s.fnCalls + 1 else s.fnCalls
    nextEmitMs := if s.periodMs > 0 then now + s.periodMs else Transport.uint64Max }

/-- The schedule after a tick at `now`. -/
def ScheduledAnnounce.after (now : Nat) (s : ScheduledAnnounce) : ScheduledAnnounce :=
  if now < s.nextEmitMs then s else s.fired now

@[simp] theorem ScheduledAnnounce.withFn_withFn (s : ScheduledAnnounce) (fn fn' : Nat → Bytes) :
    (s.withFn fn').withFn fn = s.withFn fn := by
  cases hs : s.fn <;> simp [withFn, hs]

theorem ScheduledAnnounce.fired_withFn (s : ScheduledAnnounce) (fn : Nat → Bytes) (now : Nat) :
    (s.withFn fn).fired now = (s.fired now).withFn fn := by
  simp [fired, withFn]

/-- The callback is called for the next result only. -/
theorem ScheduledAnnounce.appData_withFn {s : ScheduledAnnounce} {fn fn' : Nat → Bytes}
    (h : s.fn.isSome = true → fn s.fnCalls = fn' s.fnCalls) :
    (s.withFn fn).appData = (s.withFn fn').appData := by
  cases hs : s.fn with
  | none => simp [appData, withFn, hs]
  | some f => simpa [appData, withFn, hs] using h

namespace Transport

/-- The node with these results for the callbacks of its schedules. -/
def withFn (t : Transport) (fn : Nat → Bytes) : Transport :=
  { t with scheduledAnnounces := t.scheduledAnnounces.map (·.withFn fn) }

@[simp] theorem withFn_transmissions (t : Transport) (fn : Nat → Bytes) :
    (t.withFn fn).transmissions = t.transmissions := rfl

/-- The node with other schedules. -/
@[simps]
def onSchedules (l : List ScheduledAnnounce) (t : Transport) : Transport :=
  { t with scheduledAnnounces := l }

variable (l : List ScheduledAnnounce) (t : Transport)

@[simp] theorem onSchedules_count (c : Counter) :
    (onSchedules l t).count c = onSchedules l (t.count c) := rfl

@[simp] theorem onSchedules_emit (e : Event) :
    (onSchedules l t).emit e = onSchedules l (t.emit e) := rfl

@[simp] theorem onSchedules_transmitNow (k : TxKind) (i : IfaceId) (w : Bytes) :
    (onSchedules l t).transmitNow k i w = onSchedules l (t.transmitNow k i w) := rfl

theorem foldl_onSchedules {ι : Type} {f : Transport → ι → Transport}
    (hf : ∀ t x, f (onSchedules l t) x = onSchedules l (f t x)) (xs : List ι) (t : Transport) :
    xs.foldl f (onSchedules l t) = onSchedules l (xs.foldl f t) :=
  List.foldl_hom (onSchedules l) hf

theorem onSchedules_deliverAnnounce (va : ValidatedAnnounce) (i : IfaceId) :
    (onSchedules l t).deliverAnnounce va i = onSchedules l (t.deliverAnnounce va i) :=
  foldl_onSchedules l (fun _ _ => rfl) _ t

theorem onSchedules_cacheValidatedAnnounce (va : ValidatedAnnounce) (i : IfaceId) (p : Packet)
    (now : Nat) : (onSchedules l t).cacheValidatedAnnounce va i p now =
      (t.cacheValidatedAnnounce va i p now).map fun r => (r.1, onSchedules l r.2) := by
  unfold cacheValidatedAnnounce
  dsimp only [onSchedules]
  split
  · cases relayedAnnounce t.localIdentity.identityHash p with
    | error e => rfl
    | ok q => rfl
  · rfl

variable [CryptoLib]

theorem onSchedules_handleAnnounce (i : IfaceId) (p : Packet) (now : Nat) :
    (onSchedules l t).handleAnnounce i p now =
      (t.handleAnnounce i p now).map (onSchedules l) := by
  unfold handleAnnounce
  cases Identity.validateAnnounce p with
  | none => rfl
  | some va =>
    have hcache : (onSchedules l (t.count .announceValidated)).cacheValidatedAnnounce va i p now =
        _ := onSchedules_cacheValidatedAnnounce l _ va i p now
    have hblackholed : (onSchedules l t).isBlackholed = t.isBlackholed := rfl
    have hknown : (onSchedules l t).publicKeyFor = t.publicKeyFor := rfl
    simp only [onSchedules_count, hcache, onSchedules_localIdentity, hblackholed, hknown]
    split_ifs
    · rfl
    · rfl
    · rfl
    · cases (t.count .announceValidated).cacheValidatedAnnounce va i p now with
      | error e => rfl
      | ok r =>
        simp only [bind, Except.bind, Except.map, onSchedules_transportEnabled,
          onSchedules_localIdentity]
        split_ifs
        · cases relayedAnnounce r.2.localIdentity.identityHash p with
          | error e => rfl
          | ok q =>
            refine congrArg Except.ok (Eq.trans ?_ (onSchedules_deliverAnnounce l _ va i))
            rfl
        · exact congrArg Except.ok (onSchedules_deliverAnnounce l _ va i)

theorem onSchedules_emitAnnounceForLocal (d a : Bytes) (pr : Bool) (only : Option IfaceId) :
    (onSchedules l t).emitAnnounceForLocal d a pr only =
      (t.emitAnnounceForLocal d a pr only).map fun r => (r.1, onSchedules l r.2) := by
  unfold emitAnnounceForLocal
  rw [onSchedules_localDestinations, onSchedules_announceSeedFn]
  cases t.localDestinations.lookup (keyOf d) with
  | none => rfl
  | some dest =>
    cases t.announceSeedFn with
    | none => rfl
    | some fn =>
      simp only [onSchedules_seedCalls]
      cases dest.buildAnnounce (fn t.seedCalls).randomPrefix (fn t.seedCalls).unixSeconds a [] pr
      with
      | error e => rfl
      | ok wire =>
        cases only with
        | some i => rfl
        | none =>
          have hall := foldl_onSchedules l
            (f := fun t i => t.transmitNow (if pr then .pathResponse else .ownAnnounce) i wire)
            (fun _ _ => rfl) t.interfaces
            { t with announceSeedFn := some fn, seedCalls := t.seedCalls + 1 }
          exact congrArg (fun t => Except.ok (true, t)) hall

omit [CryptoLib] in
theorem onSchedules_forwardPathRequest (i : IfaceId) (p : Packet) :
    (onSchedules l t).forwardPathRequest i p = onSchedules l (t.forwardPathRequest i p) := by
  unfold forwardPathRequest
  simp only [onSchedules_interfaces]
  split_ifs
  · exact congrArg (fun t => t.count .pathRequestsForwarded)
      (foldl_onSchedules l (f := fun t i => t.transmitNow _ i p.wireBytes) (fun _ _ => rfl) _ t)
  · rfl

omit [CryptoLib] in
theorem onSchedules_emitPathResponse (i : IfaceId) (e : PathEntry) :
    (onSchedules l t).emitPathResponse i e = onSchedules l (t.emitPathResponse i e) := by
  unfold emitPathResponse
  split_ifs <;> rfl

/-- The part after the tag is in the ring. -/
theorem handlePathRequest_eq (i : IfaceId) (p : Packet) : t.handlePathRequest i p =
    if p.data.length < 16 then .ok t
    else if (pathRequestTag p.data).length = 0 then .ok (t.count .pathRequestsTagless)
    else if !(t.prTags.insert (p.data.slice 0 16 ++ pathRequestTag p.data)).1 then
      .ok ((t.tagged p).count .pathRequestsDeduped)
    else if (t.tagged p).isLocalDestination (p.data.slice 0 16) then
      if (t.tagged p).announceSeedFn.isNone then .ok ((t.tagged p).count .pathRequestsLocalNoSeed)
      else ((t.tagged p).emitAnnounceForLocal (p.data.slice 0 16) [] true (some i)).map fun r =>
        (r.2.count .pathRequestsLocalAnswered).count .pathRequestsAnswered
    else
      match (t.tagged p).paths.get (p.data.slice 0 16), (t.tagged p).transportEnabled with
      | some path, true => .ok (((t.tagged p).emitPathResponse i path).count .pathRequestsAnswered)
      | none, true => .ok ((t.tagged p).forwardPathRequest i p)
      | _, false => .ok ((t.tagged p).count .pathRequestsUnanswered) := by
  unfold handlePathRequest
  rfl

theorem onSchedules_handlePathRequest (i : IfaceId) (p : Packet) :
    (onSchedules l t).handlePathRequest i p = (t.handlePathRequest i p).map (onSchedules l) := by
  have htagged : (onSchedules l t).tagged p = onSchedules l (t.tagged p) := rfl
  rw [handlePathRequest_eq, handlePathRequest_eq, htagged]
  generalize t.tagged p = u
  have hlocal : (onSchedules l u).isLocalDestination = u.isLocalDestination := rfl
  rw [hlocal, onSchedules_prTags, onSchedules_emitAnnounceForLocal, onSchedules_announceSeedFn,
    onSchedules_paths, onSchedules_transportEnabled]
  split_ifs
  · rfl
  · rfl
  · rfl
  · rfl
  · generalize emitAnnounceForLocal _ _ _ _ _ = r
    cases r <;> rfl
  · split
    · exact congrArg (fun t => Except.ok (t.count .pathRequestsAnswered))
        (onSchedules_emitPathResponse l u i _)
    · exact congrArg Except.ok (onSchedules_forwardPathRequest l u i p)
    · rfl

theorem onSchedules_handleDataForward (i : IfaceId) (p : Packet) (now : Nat) :
    (onSchedules l t).handleDataForward i p now =
      (t.handleDataForward i p now).map (onSchedules l) := by
  unfold handleDataForward
  simp only [onSchedules_count, onSchedules_localIdentity, onSchedules_paths]
  split_ifs
  · rfl
  · rfl
  · cases (t.count .dataInbound).paths.get p.destinationHash with
    | none => rfl
    | some path =>
      dsimp only
      by_cases hops : path.hops = 0
      · rw [if_pos hops, if_pos hops]
        rfl
      · rw [if_neg hops, if_neg hops]
        cases computeRelayForward p path with
        | error e => rfl
        | ok r => cases r <;> rfl

omit [CryptoLib] in
theorem onSchedules_handleProofForward (i : IfaceId) (p : Packet) :
    (onSchedules l t).handleProofForward i p = onSchedules l (t.handleProofForward i p) := by
  unfold handleProofForward
  simp only [onSchedules_count, onSchedules_reverseTable]
  cases (t.count .proofInbound).reverseTable.get p.destinationHash with
  | none => rfl
  | some e =>
    dsimp only
    split_ifs
    · rfl
    · cases e.receivedIf <;> rfl

theorem onSchedules_handleLinkRequestForward (i : IfaceId) (p : Packet) (now : Nat) :
    (onSchedules l t).handleLinkRequestForward i p now =
      (t.handleLinkRequestForward i p now).map (onSchedules l) := by
  unfold handleLinkRequestForward
  simp only [onSchedules_localIdentity, onSchedules_paths]
  split_ifs
  · rfl
  · rfl
  · cases t.paths.get p.destinationHash with
    | none => rfl
    | some path =>
      dsimp only
      by_cases hops : path.hops = 0
      · rw [if_pos hops, if_pos hops]
        rfl
      · rw [if_neg hops, if_neg hops]
        cases computeRelayForward p path with
        | error e => rfl
        | ok r => cases r <;> rfl

theorem onSchedules_handleLinkProofForward (i : IfaceId) (p : Packet) (now : Nat) :
    (onSchedules l t).handleLinkProofForward i p now =
      onSchedules l (t.handleLinkProofForward i p now) := by
  have hverifies : (onSchedules l t).lrproofVerifies = t.lrproofVerifies := rfl
  unfold handleLinkProofForward
  rw [hverifies, onSchedules_linkTable]
  cases t.linkTable.get p.destinationHash with
  | none => rfl
  | some e =>
    dsimp only
    split_ifs
    · rfl
    · rfl
    · cases e.rcvdIf <;> rfl

omit [CryptoLib] in
theorem onSchedules_handleLinkDataForward (i : IfaceId) (p : Packet) (now : Nat) :
    (onSchedules l t).handleLinkDataForward i p now =
      onSchedules l (t.handleLinkDataForward i p now) := by
  unfold handleLinkDataForward
  rw [onSchedules_linkTable]
  cases t.linkTable.get p.destinationHash with
  | none => rfl
  | some e =>
    dsimp only
    by_cases hv : (!e.validated) = true
    · rw [if_pos hv, if_pos hv]
      rfl
    · rw [if_neg hv, if_neg hv]
      cases oppositeIf e i with
      | none => rfl
      | some f =>
        dsimp only
        split_ifs <;> rfl

theorem onSchedules_dispatch (i : IfaceId) (p : Packet) (now : Nat) :
    (onSchedules l t).dispatch i p now = (t.dispatch i p now).map (onSchedules l) := by
  unfold dispatch
  cases p.packetType with
  | announce => exact onSchedules_handleAnnounce l t i p now
  | data =>
    dsimp only
    split_ifs
    · exact onSchedules_handlePathRequest l t i p
    · exact congrArg Except.ok (onSchedules_handleLinkDataForward l t i p now)
    · exact onSchedules_handleDataForward l t i p now
  | linkRequest => exact onSchedules_handleLinkRequestForward l t i p now
  | proof =>
    dsimp only
    split_ifs
    · exact congrArg Except.ok (onSchedules_handleLinkProofForward l t i p now)
    · exact congrArg Except.ok (onSchedules_handleProofForward l t i p)

theorem onSchedules_inbound (i : IfaceId) (wire : Bytes) (now : Nat) :
    (onSchedules l t).inbound i wire now = (t.inbound i wire now).map (onSchedules l) := by
  unfold inbound
  simp only [onSchedules_count, onSchedules_hashlist]
  split_ifs
  · rfl
  · cases Packet.fromWireBytes (bumpHops wire) with
    | error e => cases e <;> rfl
    | ok p =>
      dsimp only
      split_ifs
      · rfl
      · exact onSchedules_dispatch l { t.count .inboundPackets with hashlist := _ } i p now

/-! ### Ticks -/

omit [CryptoLib] in
theorem onSchedules_driveAnnounceRebroadcast (now : Nat) :
    (onSchedules l t).driveAnnounceRebroadcast now =
      onSchedules l (t.driveAnnounceRebroadcast now) := by
  have hround (t : Transport) (entry : AnnounceEntry) :
      ((onSchedules l t).interfaces.foldl (fun t i => t.queueOn entry i) (onSchedules l t)).count
        .announcesRebroadcast =
      onSchedules l ((t.interfaces.foldl (fun t i => t.queueOn entry i) t).count
        .announcesRebroadcast) :=
    congrArg (·.count .announcesRebroadcast)
      (foldl_onSchedules l (f := fun t i => t.queueOn entry i) (fun _ _ => rfl) t.interfaces t)
  exact foldl_onSchedules l hround _ { t with announceTable := (t.announceTable.popDue now).2 }

theorem driveSchedule_eq (now : Nat) (s : ScheduledAnnounce) : driveSchedule now s t =
    if now < s.nextEmitMs then .ok (s, t)
    else (t.emitAnnounceForLocal s.destHash s.appData false none).map fun r =>
      (s.fired now, if r.1 then r.2.count .scheduledAnnouncesEmitted else r.2) := by
  obtain ⟨destHash, period, next, f, calls⟩ := s
  cases f <;> rfl

theorem driveSchedule_withFn {fn fn' : Nat → Bytes} {s : ScheduledAnnounce} {now : Nat}
    (h : s.fn.isSome = true → s.nextEmitMs ≤ now → fn s.fnCalls = fn' s.fnCalls) :
    driveSchedule now (s.withFn fn) (onSchedules l t) =
      (driveSchedule now (s.withFn fn') t).map fun r => (r.1.withFn fn, onSchedules l r.2) := by
  rw [driveSchedule_eq, driveSchedule_eq, onSchedules_emitAnnounceForLocal]
  simp only [ScheduledAnnounce.fired_withFn, ScheduledAnnounce.withFn_nextEmitMs,
    ScheduledAnnounce.withFn_destHash]
  by_cases hdue : now < s.nextEmitMs
  · rw [if_pos hdue, if_pos hdue]
    simp [Except.map]
  rw [if_neg hdue, if_neg hdue,
    ScheduledAnnounce.appData_withFn fun hs => h hs (Nat.le_of_not_lt hdue)]
  generalize t.emitAnnounceForLocal _ _ _ _ = r
  rcases r with e | ⟨b, u⟩
  · rfl
  · cases b <;> simp [Except.map]

theorem driveSchedules_withFn {fn fn' : Nat → Bytes} {ss : List ScheduledAnnounce} {now : Nat}
    (h : ∀ s ∈ ss, s.fn.isSome = true → s.nextEmitMs ≤ now → fn s.fnCalls = fn' s.fnCalls) :
    driveSchedules now (ss.map (·.withFn fn)) (onSchedules l t) =
      (driveSchedules now (ss.map (·.withFn fn')) t).map fun r =>
        (r.1.map (·.withFn fn), onSchedules l r.2) := by
  induction ss generalizing t with
  | nil => rfl
  | cons s ss ih =>
    have hs := driveSchedule_withFn l t (h s (List.mem_cons_self ..))
    simp only [List.map_cons, driveSchedules, hs]
    rcases driveSchedule now (s.withFn fn') t with e | ⟨s', u⟩
    · rfl
    have hss := ih u fun s hs => h s (List.mem_cons_of_mem _ hs)
    simp only [Except.map, bind, Except.bind] at hss ⊢
    rw [hss]
    generalize driveSchedules now _ u = r
    cases r <;> rfl

/-- What a tick does after the schedules. -/
def finishTick (now : Nat) (t : Transport) : Transport :=
  let t := t.interfaces.foldl (fun t i => t.tickInterface i now) t
  { t with
    paths := (t.paths.evictExpired now).2
    reverseTable := (t.reverseTable.evictAged now).2
    linkTable := ((t.linkTable.evictUnproven now).2.evictStale now linkStaleThresholdMs).2
    hashlist := t.hashlist.purgeIfOverCap.2
    prTags := t.prTags.purgeIfOverCap.2 }

omit [CryptoLib] in
theorem onSchedules_finishTick (now : Nat) :
    finishTick now (onSchedules l t) = onSchedules l (finishTick now t) := by
  have hall := foldl_onSchedules l (f := fun t i => t.tickInterface i now) (fun _ _ => rfl)
    t.interfaces t
  unfold finishTick
  rw [onSchedules_interfaces, hall]
  rfl

theorem tick_eq (now : Nat) : t.tick now =
    (driveSchedules now t.scheduledAnnounces (t.driveAnnounceRebroadcast now)).map fun r =>
      finishTick now (onSchedules r.1 r.2) := by
  have hrebroadcast := onSchedules_driveAnnounceRebroadcast t.scheduledAnnounces t now
  have hsame := congrArg scheduledAnnounces hrebroadcast
  change (t.driveAnnounceRebroadcast now).scheduledAnnounces = t.scheduledAnnounces at hsame
  simp only [tick, driveScheduledAnnounces, hsame]
  generalize driveSchedules now _ (t.driveAnnounceRebroadcast now) = r
  cases r <;> rfl

/-- A tick of a node with other callbacks, if those it calls return the same. -/
theorem tick_withFn {fn fn' : Nat → Bytes} {now : Nat} (h : ∀ s ∈ t.scheduledAnnounces,
      s.fn.isSome = true → s.nextEmitMs ≤ now → fn s.fnCalls = fn' s.fnCalls) :
    (t.withFn fn).tick now = ((t.withFn fn').tick now).map (·.withFn fn) := by
  have hdrive (fn : Nat → Bytes) : driveSchedules now (t.withFn fn).scheduledAnnounces
      ((t.withFn fn).driveAnnounceRebroadcast now) = _ :=
    congrArg (driveSchedules now _) (onSchedules_driveAnnounceRebroadcast _ t now)
  have hrfl : ∀ s ∈ t.scheduledAnnounces, s.fn.isSome = true → s.nextEmitMs ≤ now →
      fn' s.fnCalls = fn' s.fnCalls := fun _ _ _ _ => rfl
  have hleft := driveSchedules_withFn (t.scheduledAnnounces.map (·.withFn fn))
    (t.driveAnnounceRebroadcast now) h
  have hright := driveSchedules_withFn (t.scheduledAnnounces.map (·.withFn fn'))
    (t.driveAnnounceRebroadcast now) hrfl
  rw [tick_eq, tick_eq, hdrive, hdrive]
  simp only [withFn]
  rw [hleft, hright]
  generalize driveSchedules now _ (t.driveAnnounceRebroadcast now) = r
  rcases r with e | ⟨ss, u⟩
  · rfl
  have hmap : (ss.map (·.withFn fn')).map (·.withFn fn) = ss.map (·.withFn fn) := by
    simp [Function.comp_def]
  have hleft := onSchedules_finishTick (ss.map (·.withFn fn)) u now
  have hright := congrArg (·.withFn fn) (onSchedules_finishTick (ss.map (·.withFn fn')) u now)
  refine congrArg Except.ok (hleft.trans (Eq.trans ?_ hright.symm))
  exact congrArg (onSchedules · (finishTick now u)) hmap.symm

theorem driveSchedules_after {now : Nat} {ss ss' : List ScheduledAnnounce} {t t' : Transport}
    (h : driveSchedules now ss t = .ok (ss', t')) : ss' = ss.map (·.after now) := by
  induction ss generalizing ss' t with
  | nil =>
    cases h
    rfl
  | cons s ss ih =>
    obtain ⟨⟨s₁, t₁⟩, hs, h⟩ := bind_eq_ok h
    obtain ⟨⟨ss₁, t₂⟩, hss, h⟩ := bind_eq_ok h
    cases h
    rw [driveSchedule_eq] at hs
    rw [List.map_cons, ih hss, ScheduledAnnounce.after]
    split at hs
    · rename_i hdue
      rw [if_pos hdue]
      cases hs
      rfl
    · rename_i hdue
      rw [if_neg hdue]
      obtain ⟨r, -, hr⟩ := map_eq_ok hs
      cases hr
      rfl

variable {t} in
theorem tick_scheduledAnnounces {t' : Transport} {now : Nat} (h : t.tick now = .ok t') :
    t'.scheduledAnnounces = t.scheduledAnnounces.map (·.after now) := by
  rw [tick_eq] at h
  obtain ⟨⟨ss, u⟩, hdrive, rfl⟩ := map_eq_ok h
  rw [← driveSchedules_after hdrive]
  exact congrArg scheduledAnnounces (onSchedules_finishTick ss u now)

variable {t} in
theorem inbound_scheduledAnnounces {t' : Transport} {i : IfaceId} {wire : Bytes} {now : Nat}
    (h : t.inbound i wire now = .ok t') : t'.scheduledAnnounces = t.scheduledAnnounces := by
  have hkeeps : t.inbound i wire now = _ := onSchedules_inbound t.scheduledAnnounces t i wire now
  rw [h] at hkeeps
  have hsame := congrArg scheduledAnnounces (Except.ok.inj hkeeps)
  exact hsame

/-- `inbound` does not look at the schedules. -/
theorem inbound_withFn (fn : Nat → Bytes) (i : IfaceId) (wire : Bytes) (now : Nat) :
    (t.withFn fn).inbound i wire now = (t.inbound i wire now).map (·.withFn fn) := by
  have hother := onSchedules_inbound (t.withFn fn).scheduledAnnounces t i wire now
  refine hother.trans ?_
  cases hr : t.inbound i wire now with
  | error e => rfl
  | ok t' =>
    have hsame := inbound_scheduledAnnounces hr
    exact congrArg (fun l => Except.ok (onSchedules (l.map (·.withFn fn)) t')) hsame.symm

/-! ### Calls -/

variable {t} {t' : Transport} {a : Action}

theorem step_withFn (fn : Nat → Bytes) (h : t.step a = .ok t') (ha : ∀ now, a ≠ .tick now) :
    (t.withFn fn).step (a.withFn fn) = .ok (t'.withFn fn) := by
  cases a with
  | inbound i wire now =>
    exact (inbound_withFn { t with out := [] } fn i wire now).trans (congrArg _ h)
  | tick now => exact absurd rfl (ha now)
  | emitAnnounceForLocal d data pr only =>
    obtain ⟨⟨b, u⟩, hemit, h⟩ := map_eq_ok h
    cases h
    obtain ⟨n, o, -, s, hframe⟩ := emitAnnounceForLocal_frame hemit
    have hsame : u.scheduledAnnounces = t.scheduledAnnounces := by rw [hframe]
    have hother := onSchedules_emitAnnounceForLocal (t.withFn fn).scheduledAnnounces
      { t with out := [] } d data pr only
    rw [hemit] at hother
    refine (congrArg (·.map Prod.snd) hother).trans ?_
    exact congrArg (fun l => Except.ok (onSchedules (l.map (·.withFn fn)) u)) hsame.symm
  | scheduleAnnounce d period f offset =>
    cases h
    simp [Action.withFn, step, perform, withFn, ScheduledAnnounce.withFn]
  | _ =>
    cases h
    rfl

theorem step_tick_withFn {fn fn' : Nat → Bytes} {now : Nat}
    (h : (t.withFn fn').step (.tick now) = .ok t') (hfn : ∀ s ∈ t.scheduledAnnounces,
      s.fn.isSome = true → s.nextEmitMs ≤ now → fn s.fnCalls = fn' s.fnCalls) :
    (t.withFn fn).step (.tick now) = .ok (t'.withFn fn) :=
  (tick_withFn { t with out := [] } hfn).trans (congrArg _ h)

/-! ### What a tick announces -/

/-- `wire` is an announce of the schedule's destination, with what its callback returns. -/
def AnnouncedBy (t : Transport) (s : ScheduledAnnounce) (wire : Bytes) : Prop :=
  ∃ dest seedFn n, t.localDestinations.lookup (keyOf s.destHash) = some dest ∧
    t.announceSeedFn = some seedFn ∧
    dest.buildAnnounce (seedFn n).randomPrefix (seedFn n).unixSeconds s.appData [] false = .ok wire

/-- `t'` is `t` after the announces `wires`, each on every interface. -/
def SentOn (t : Transport) (wires : List Bytes) (t' : Transport) : Prop :=
  ∃ n s, t' = { t with
    seedCalls := n
    stats := s
    out := t.out ++ wires.flatMap fun wire => t.interfaces.map fun i =>
      .transmit .ownAnnounce i wire }

/-- The node can announce these destinations. -/
def CanAnnounce (t : Transport) (ss : List ScheduledAnnounce) : Prop :=
  t.announceSeedFn.isSome = true ∧ ∀ s ∈ ss, t.isLocalDestination s.destHash = true

theorem driveSchedule_sentOn {now : Nat} {s s' : ScheduledAnnounce}
    (h : driveSchedule now s t = .ok (s', t')) (hs : t.CanAnnounce [s]) :
    ∃ wires, List.Forall₂ t.AnnouncedBy ([s].filter (·.nextEmitMs ≤ now)) wires ∧
      t.SentOn wires t' := by
  rw [driveSchedule_eq] at h
  by_cases hdue : now < s.nextEmitMs
  · rw [if_pos hdue] at h
    cases h
    have hnone : [s].filter (·.nextEmitMs ≤ now) = [] := by simp [hdue]
    rw [hnone]
    exact ⟨[], .nil, t.seedCalls, t.stats, by simp⟩
  rw [if_neg hdue] at h
  have hone : [s].filter (·.nextEmitMs ≤ now) = [s] := by simp [Nat.le_of_not_lt hdue]
  rw [hone]
  obtain ⟨⟨b, u⟩, hemit, h⟩ := map_eq_ok h
  cases h
  obtain ⟨dest, hdest⟩ := Option.isSome_iff_exists.mp (hs.2 s (List.mem_singleton_self s))
  obtain ⟨seedFn, hseed⟩ := Option.isSome_iff_exists.mp hs.1
  unfold emitAnnounceForLocal at hemit
  simp only [hdest, hseed] at hemit
  obtain ⟨wire, hwire, hemit⟩ := bind_eq_ok hemit
  cases hemit
  refine ⟨[wire], .cons ⟨dest, seedFn, _, hdest, hseed, hwire⟩ .nil, ?_⟩
  obtain ⟨st, hall⟩ := adds_transmitAll
    { t with announceSeedFn := some seedFn, seedCalls := t.seedCalls + 1 } .ownAnnounce t.interfaces
    wire
  simp only [if_true, Bool.false_eq_true, if_false]
  rw [hall, ← hseed]
  simp only [SentOn, List.flatMap_cons, List.flatMap_nil, List.append_nil]
  exact ⟨_, _, rfl⟩

theorem driveSchedules_sentOn {now : Nat} {ss ss' : List ScheduledAnnounce}
    (h : driveSchedules now ss t = .ok (ss', t')) (hss : t.CanAnnounce ss) :
    ∃ wires, List.Forall₂ t.AnnouncedBy (ss.filter (·.nextEmitMs ≤ now)) wires ∧
      t.SentOn wires t' := by
  induction ss generalizing ss' t with
  | nil =>
    cases h
    exact ⟨[], .nil, t'.seedCalls, t'.stats, by simp⟩
  | cons s ss ih =>
    obtain ⟨⟨s₁, t₁⟩, hs, h⟩ := bind_eq_ok h
    obtain ⟨⟨ss₁, t₂⟩, hrest, h⟩ := bind_eq_ok h
    cases h
    obtain ⟨wires₁, hall₁, n₁, st₁, rfl⟩ :=
      driveSchedule_sentOn hs ⟨hss.1, fun s hs => hss.2 s (List.mem_cons.mpr (.inl
        (List.mem_singleton.mp hs)))⟩
    obtain ⟨wires₂, hall₂, n₂, st₂, rfl⟩ :=
      ih hrest ⟨hss.1, fun s hs => hss.2 s (List.mem_cons_of_mem _ hs)⟩
    refine ⟨wires₁ ++ wires₂, ?_, n₂, st₂, ?_⟩
    · have hsplit : (s :: ss).filter (·.nextEmitMs ≤ now) =
          [s].filter (·.nextEmitMs ≤ now) ++ ss.filter (·.nextEmitMs ≤ now) := by
        rw [← List.filter_append, List.singleton_append]
      rw [hsplit]
      exact List.rel_append hall₁ hall₂
    · simp [List.append_assoc]

/-- What the call sent of the node itself. -/
def ownSent (t : Transport) : List (IfaceId × Bytes) := t.out.filterMap Event.own

omit [CryptoLib] in
theorem ownSent_append {o : List Event} (hout : t'.out = t.out ++ o) :
    t'.ownSent = t.ownSent ++ o.filterMap Event.own := by
  rw [ownSent, hout, List.filterMap_append]
  rfl

omit [CryptoLib] in
theorem ownSent_driveAnnounceRebroadcast (t : Transport) (now : Nat) :
    (t.driveAnnounceRebroadcast now).ownSent = t.ownSent := by
  refine List.foldlRecOn (motive := fun u : Transport => u.ownSent = t.ownSent) _ _ rfl ?_
  intro u hu entry _
  refine List.foldlRecOn (motive := fun u : Transport => u.ownSent = t.ownSent) u.interfaces
    (fun u i => u.queueOn entry i) hu ?_
  intro u hu i _
  rw [ownSent_append queueOn_out, hu]
  exact List.append_nil _

omit [CryptoLib] in
theorem ownSent_finishTick (t : Transport) (now : Nat) :
    (finishTick now t).ownSent = t.ownSent := by
  refine List.foldlRecOn (motive := fun u : Transport => u.ownSent = t.ownSent) t.interfaces
    (fun u i => u.tickInterface i now) rfl ?_
  intro u hu i _
  have hout : (u.tickInterface i now).out =
      u.out ++ ((u.iface i).tick now).2.map (.drained i) := rfl
  rw [ownSent_append hout, hu, List.filterMap_map]
  simp [Function.comp_def, Event.own]

/-- A tick announces what is due, in order, and nothing else. -/
theorem tick_announces {now : Nat} (h : t.step (.tick now) = .ok t')
    (hss : t.CanAnnounce t.scheduledAnnounces) : ∃ wires,
      List.Forall₂ t.AnnouncedBy (t.scheduledAnnounces.filter (·.nextEmitMs ≤ now)) wires ∧
      t'.ownSent = wires.flatMap fun wire => t.interfaces.map (·, wire) := by
  have h : tick { t with out := [] } now = .ok t' := h
  rw [tick_eq] at h
  obtain ⟨⟨ss, u⟩, hdrive, rfl⟩ := map_eq_ok h
  have hquiet := ownSent_driveAnnounceRebroadcast { t with out := [] } now
  obtain ⟨s, f, n, o, -, hidle⟩ := driveAnnounceRebroadcast_idles { t with out := [] } now
  rw [hidle] at hdrive hquiet
  obtain ⟨wires, hall, m, s', rfl⟩ := driveSchedules_sentOn hdrive hss
  refine ⟨wires, hall, ?_⟩
  rw [ownSent_finishTick]
  refine (List.filterMap_append ..).trans ((congrArg (· ++ _) hquiet).trans ?_)
  simp [ownSent, List.filterMap_flatMap, List.filterMap_map, Function.comp_def, Event.own]

end Transport
end Reticulum
