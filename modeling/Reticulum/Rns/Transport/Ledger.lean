import Reticulum.Rns.Transport.Handing

/-!
# What a call books

`Books` says which counters a handler counts of a packet and with which tags it sends something on.
`step_entered` says the same of every call.
-/

namespace Reticulum

/-- The tag the tx observer is given. -/
def Event.kind : Event → Option TxKind
  | .transmit kind _ _ => some kind
  | .queueAnnounce _ _ _ _ => some .rebroadcast
  | _ => none

/-- What a handler books of a packet: the counters, and the tags of what it sends. -/
inductive Books (paths : PathTable) (returns : ReverseTable) :
    Handler → List Counter → List TxKind → Prop
  | refused {c : Counter} (hc : c ∈ [.announceRejected, .selfAnnounceDrops, .blackholeDrops,
      .collisionsRejected]) : Books paths returns .announce [c] []
  | takenIn (kept queued : Bool) (n : Nat) : Books paths returns .announce (.announceValidated ::
      ((if kept then [.pathReplacementRejected] else []) ++
        ((if queued then [.announcesQueued] else []) ++ List.replicate n .announcesDelivered))) []
  | short : Books paths returns .pathRequest [] []
  | tagless : Books paths returns .pathRequest [.pathRequestsTagless] []
  | unanswered {c : Counter} (hc : c ∈ [.pathRequestsDeduped, .pathRequestsLocalNoSeed,
      .pathRequestsUnanswered]) : Books paths returns .pathRequest [.pathRequestsReceived, c] []
  | answeredOwn {ks : List TxKind} (hk : ∀ k ∈ ks, k = .pathResponse) :
    Books paths returns .pathRequest
      [.pathRequestsReceived, .pathRequestsLocalAnswered, .pathRequestsAnswered] ks
  | answered {ks : List TxKind} (hk : ∀ k ∈ ks, k = .pathResponse) :
    Books paths returns .pathRequest [.pathRequestsReceived, .pathRequestsAnswered] ks
  | passedOn (n : Nat) : Books paths returns .pathRequest
      [.pathRequestsReceived, .pathRequestsForwarded] (List.replicate n .pathRequestForward)
  | notRelayed : Books paths returns .data [.dataInbound] []
  | arrived {d : Bytes} {e : PathEntry} (he : paths.get d = some e) (h0 : e.hops = 0) :
    Books paths returns .data [.dataInbound, .dataLocalArrived] []
  | relayed {c : Counter} (hc : c = .dataForwardedHeader2 ∨ c = .dataForwardedHeader1) :
    Books paths returns .data [.dataInbound, c] [.dataForward]
  | proofRefused {c : Counter} (hc : c = .proofOrphaned ∨ c = .proofWrongInterface) :
    Books paths returns .proof [.proofInbound, c] []
  | proofUnsent {h : Bytes} {e : ReverseEntry} (he : returns.get h = some e)
    (hr : e.receivedIf = none) : Books paths returns .proof [.proofInbound] []
  | proofReturned : Books paths returns .proof [.proofInbound, .proofForwarded] [.proofForward]
  | requestNotRelayed : Books paths returns .linkRequest [] []
  | requestRelayed : Books paths returns .linkRequest [.linkRequestsForwarded] [.linkForward]
  | linkProofRefused {c : Counter} (hc : c ∈ [.linkProofsUnknownLink, .linkProofsWrongIface,
      .linkProofsInvalid]) : Books paths returns .linkProof [c] []
  | linkProofReturned : Books paths returns .linkProof [.linkProofsForwarded] [.linkForward]
  | linkDataRefused {c : Counter} (hc : c = .linkDataUnknownLink ∨ c = .linkDataUnvalidated) :
    Books paths returns .linkData [c] []
  | linkDataElsewhere : Books paths returns .linkData [] []
  | linkDataRelayed (closes : Bool) : Books paths returns .linkData (.linkDataForwarded ::
      if closes then [.linkCloseObserved] else []) [.linkForward]

theorem Books.counted {paths : PathTable} {returns : ReverseTable} {k : Handler}
    {cs : List Counter} {ks : List TxKind} (h : Books paths returns k cs ks) :
    ∀ c ∈ cs, c ∈ k.counters := by
  cases h with
  | refused hc =>
    simp only [List.mem_cons, List.not_mem_nil, or_false] at hc
    rcases hc with rfl | rfl | rfl | rfl <;> decide
  | takenIn kept queued n =>
    intro c hc
    simp only [List.mem_cons, List.mem_append] at hc
    rcases hc with rfl | hc | hc | hc
    · decide
    · cases kept with
      | false => cases hc
      | true =>
        cases List.mem_singleton.mp hc
        decide
    · cases queued with
      | false => cases hc
      | true =>
        cases List.mem_singleton.mp hc
        decide
    · cases List.eq_of_mem_replicate hc
      decide
  | unanswered hc =>
    simp only [List.mem_cons, List.not_mem_nil, or_false] at hc
    rcases hc with rfl | rfl | rfl <;> decide
  | relayed hc => rcases hc with rfl | rfl <;> decide
  | proofRefused hc => rcases hc with rfl | rfl <;> decide
  | linkProofRefused hc =>
    simp only [List.mem_cons, List.not_mem_nil, or_false] at hc
    rcases hc with rfl | rfl | rfl <;> decide
  | linkDataRefused hc => rcases hc with rfl | rfl <;> decide
  | linkDataRelayed closes => cases closes <;> decide
  | _ => decide

theorem Books.not_counted {paths : PathTable} {returns : ReverseTable} {k : Handler}
    {cs : List Counter} {ks : List TxKind} {c : Counter} (h : Books paths returns k cs ks)
    (hc : c ∉ k.counters) : cs.count c = 0 :=
  List.count_eq_zero.mpr fun hmem => hc (h.counted c hmem)

theorem Books.not_rebroadcast {paths : PathTable} {returns : ReverseTable} {k : Handler}
    {cs : List Counter} {ks : List TxKind} (h : Books paths returns k cs ks) :
    ks.count .rebroadcast = 0 := by
  have hresp : ∀ {ks : List TxKind}, (∀ k ∈ ks, k = .pathResponse) → ks.count .rebroadcast = 0 := by
    intro ks hk
    refine List.count_eq_zero.mpr fun hmem => ?_
    cases hk _ hmem
  cases h with
  | answeredOwn hk => exact hresp hk
  | answered hk => exact hresp hk
  | passedOn n => simp [List.count_replicate]
  | _ => decide

namespace Transport

/-- The tags the call gave the tx observer. -/
def kinds (t : Transport) : List TxKind := t.out.filterMap Event.kind

/-- From `t` to `t'` the counters `cs` are counted and the tags `ks` are given. -/
structure Posts (t : Transport) (cs : List Counter) (ks : List TxKind) (t' : Transport) : Prop where
  stats : ∀ c, t'.stats c = t.stats c + cs.count c
  kinds : t'.kinds = t.kinds ++ ks

namespace Posts
variable {t t' t'' : Transport} {cs cs' : List Counter} {ks ks' : List TxKind}

theorem of_eq (hs : t'.stats = t.stats) (ho : t'.out = t.out) : Posts t [] [] t' := by
  refine ⟨fun c => by rw [hs, List.count_nil, Nat.add_zero], ?_⟩
  rw [Transport.kinds, Transport.kinds, ho, List.append_nil]

theorem refl (t : Transport) : Posts t [] [] t := of_eq rfl rfl

theorem trans (h : Posts t cs ks t') (h' : Posts t' cs' ks' t'') :
    Posts t (cs ++ cs') (ks ++ ks') t'' := by
  refine ⟨fun c => ?_, ?_⟩
  · rw [h'.stats, h.stats, List.count_append, Nat.add_assoc]
  · rw [h'.kinds, h.kinds, List.append_assoc]

theorem count (h : Posts t cs ks t') (c : Counter) : Posts t (cs ++ [c]) ks (t'.count c) := by
  refine ⟨fun c' => ?_, h.kinds⟩
  rw [count_stats, h.stats, List.count_append, List.count_singleton]
  by_cases hc : c' = c
  · rw [if_pos hc, hc, beq_self_eq_true, if_pos rfl, Nat.add_assoc]
  · rw [if_neg hc, if_neg (by simpa using Ne.symm hc), Nat.add_zero]

theorem emit (h : Posts t cs ks t') {e : Event} {o : List TxKind} (he : e.kind.toList = o) :
    Posts t cs (ks ++ o) (t'.emit e) := by
  refine ⟨h.stats, ?_⟩
  have hone : [e].filterMap Event.kind = o := by
    rw [← he]
    cases hk : e.kind <;> simp [hk]
  rw [Transport.kinds, Transport.emit, List.filterMap_append, hone]
  exact (congrArg (· ++ o) h.kinds).trans (List.append_assoc _ _ _)

theorem transmit (h : Posts t cs ks t') (k : TxKind) (i : IfaceId) (w : Bytes) :
    Posts t cs (ks ++ [k]) (t'.transmitNow k i w) := h.emit rfl

/-- What neither counts nor sends may come in between. -/
theorem rest {u : Transport} (h : Posts t cs ks t') (hs : u.stats = t'.stats)
    (ho : u.out = t'.out) : Posts t cs ks u := by
  have hall := h.trans (of_eq hs ho)
  rwa [List.append_nil, List.append_nil] at hall

theorem transmitAll (h : Posts t cs ks t') (k : TxKind) (is : List IfaceId) (w : Bytes) :
    Posts t cs (ks ++ List.replicate is.length k)
      (is.foldl (fun t i => t.transmitNow k i w) t') := by
  induction is generalizing ks t' with
  | nil => simpa using h
  | cons i is ih =>
    rw [List.length_cons, List.replicate_succ, List.append_cons]
    exact ih (h.transmit k i w)

end Posts

variable {t t' : Transport} {i : IfaceId} {p : Packet} {now : Nat}

/-! ### The handlers -/

/-- The handler `k` has taken `t` to `t'`. -/
def Booked (k : Handler) (t t' : Transport) : Prop :=
  ∃ cs ks, Books t.paths t.reverseTable k cs ks ∧ Posts t cs ks t'

theorem handleProofForward_booked : Booked .proof t (t.handleProofForward i p) := by
  have hin := (Posts.refl t).count .proofInbound
  simp only [handleProofForward]
  split
  · exact ⟨_, _, .proofRefused (.inl rfl), hin.count _⟩
  split
  · exact ⟨_, _, .proofRefused (.inr rfl), hin.count _⟩
  have hpop := hin.rest (u := { t.count .proofInbound with
    reverseTable := ((t.count .proofInbound).reverseTable.pop p.destinationHash).2 }) rfl rfl
  split
  · exact ⟨_, _, .proofUnsent ‹_› ‹_›, hpop⟩
  · exact ⟨_, _, .proofReturned, (hpop.transmit _ _ _).count _⟩

theorem handleLinkDataForward_booked : Booked .linkData t (t.handleLinkDataForward i p now) := by
  have h := Posts.refl t
  simp only [handleLinkDataForward]
  split
  · exact ⟨_, _, .linkDataRefused (.inl rfl), h.count _⟩
  split
  · exact ⟨_, _, .linkDataRefused (.inr rfl), h.count _⟩
  split
  · exact ⟨_, _, .linkDataElsewhere, h⟩
  · rename_i f _
    have hsent := (h.transmit .linkForward f p.wireBytes).count .linkDataForwarded
    split
    · exact ⟨_, _, .linkDataRelayed true, (hsent.count .linkCloseObserved).rest rfl rfl⟩
    · exact ⟨_, _, .linkDataRelayed false, hsent.rest rfl rfl⟩

section
variable [CryptoLib]

theorem handleLinkProofForward_booked :
    Booked .linkProof t (t.handleLinkProofForward i p now) := by
  have h := Posts.refl t
  simp only [handleLinkProofForward]
  split
  · exact ⟨_, _, .linkProofRefused (by simp), h.count _⟩
  split
  · exact ⟨_, _, .linkProofRefused (by simp), h.count _⟩
  split
  · exact ⟨_, _, .linkProofRefused (by simp), h.count _⟩
  split
  · exact ⟨_, _, .linkProofRefused (by simp), h.count _⟩
  · exact ⟨_, _, .linkProofReturned, ((h.transmit _ _ _).count _).rest rfl rfl⟩

theorem handleLinkRequestForward_booked (h : t.handleLinkRequestForward i p now = .ok t') :
    Booked .linkRequest t t' := by
  cases hr : t.route p with
  | none =>
    cases (handleLinkRequestForward_of_route_none i now hr).symm.trans h
    exact ⟨_, _, .requestNotRelayed, .refl t⟩
  | some eoq =>
    obtain ⟨h2, hid, he, hrelay⟩ := route_eq_some hr
    have h0 : eoq.1.hops ≠ 0 := fun h0 => by simp [relayOf_zero h0] at hrelay
    simp only [handleLinkRequestForward, ne_eq, h2, hid, he, h0, not_true_eq_false, ↓reduceIte,
      computeRelayForward_eq p h2, hrelay] at h
    cases h
    have hsent := (Posts.refl t).transmit .linkForward eoq.2.1
      (maybeClampLrSignalling eoq.2.2.wireBytes (t.iface eoq.2.1).hwMtuBytes)
    exact ⟨_, _, .requestRelayed, (hsent.count .linkRequestsForwarded).rest rfl rfl⟩

theorem handleDataForward_booked (h : t.handleDataForward i p now = .ok t') :
    Booked .data t t' := by
  have hin := (Posts.refl t).count .dataInbound
  simp only [handleDataForward] at h
  split at h
  · cases h
    exact ⟨_, _, .notRelayed, hin⟩
  split at h
  · cases h
    exact ⟨_, _, .notRelayed, hin⟩
  split at h
  · cases h
    exact ⟨_, _, .notRelayed, hin⟩
  split at h
  · cases h
    exact ⟨_, _, .arrived ‹_› ‹_›, hin.count _⟩
  obtain ⟨f, -, h⟩ := bind_eq_ok h
  cases f with
  | none =>
    cases h
    exact ⟨_, _, .notRelayed, hin⟩
  | some fwd =>
    cases h
    refine ⟨_, _, .relayed ?_, ((hin.transmit _ _ _).count _).rest rfl rfl⟩
    split
    · exact .inl rfl
    · exact .inr rfl

omit [CryptoLib] in
theorem deliverAnnounce_posts (t : Transport) (va : ValidatedAnnounce) (i : IfaceId) :
    Posts t (List.replicate t.announceHandlers .announcesDelivered) []
      (t.deliverAnnounce va i) := by
  suffices h : ∀ (l : List Nat) (t : Transport), Posts t
      (List.replicate l.length .announcesDelivered) [] (l.foldl (fun t _ =>
        (t.emit (.announceHandler va i)).count .announcesDelivered) t) by
    have hall := h (List.range t.announceHandlers) t
    rwa [List.length_range] at hall
  intro l
  induction l with
  | nil => exact Posts.refl
  | cons n l ih =>
    intro t
    have hone : Posts t [] [] (t.emit (.announceHandler va i)) := (Posts.refl t).emit rfl
    exact (hone.count .announcesDelivered).trans (ih _)

omit [CryptoLib] in
theorem cacheValidatedAnnounce_posts {va : ValidatedAnnounce} {b : Bool}
    (h : t.cacheValidatedAnnounce va i p now = .ok (b, t')) :
    ∃ kept : Bool, Posts t (if kept then [.pathReplacementRejected] else []) [] t' := by
  have h₀ := (Posts.refl t).rest (u := { t with
    knownDestinations := t.knownDestinations.insert (keyOf va.destinationHash) va.publicKey })
    rfl rfl
  rw [cacheValidatedAnnounce] at h
  simp only [relayedAnnounce_eq] at h
  split at h
  · cases h
    have hput := h₀.rest (u := { t with
      knownDestinations := t.knownDestinations.insert (keyOf va.destinationHash) va.publicKey
      paths := t.paths.put va.destinationHash (t.learnedPath va i p now) }) rfl rfl
    have hall := hput.emit (e := .pathObserver {
      destinationHash := va.destinationHash
      hops := p.hops
      nextHop := learnedNextHop p
      isNew := (t.paths.get va.destinationHash).isNone }) rfl
    exact ⟨false, hall.rest rfl rfl⟩
  · cases h
    exact ⟨true, (h₀.count .pathReplacementRejected).rest rfl rfl⟩

theorem handleAnnounce_booked (h : t.handleAnnounce i p now = .ok t') :
    Booked .announce t t' := by
  have h₀ := Posts.refl t
  unfold handleAnnounce at h
  cases hv : Identity.validateAnnounce p with
  | none =>
    rw [hv] at h
    cases h
    exact ⟨_, _, .refused (by simp), h₀.count .announceRejected⟩
  | some va =>
    simp only [hv] at h
    split at h
    · cases h
      exact ⟨_, _, .refused (by simp), h₀.count .selfAnnounceDrops⟩
    split at h
    · cases h
      exact ⟨_, _, .refused (by simp), h₀.count .blackholeDrops⟩
    split at h
    · cases h
      exact ⟨_, _, .refused (by simp), h₀.count .collisionsRejected⟩
    obtain ⟨⟨b, t₁⟩, hcache, h⟩ := bind_eq_ok h
    obtain ⟨kept, hkept⟩ := cacheValidatedAnnounce_posts hcache
    have hkept := (h₀.count .announceValidated).trans hkept
    simp only [relayedAnnounce_eq] at h
    split at h
    · cases h
      have hqueued := Posts.count (hkept.rest (u := { t₁ with
        announceTable := t₁.announceTable.put (t₁.queuedAnnounce va i p now) }) rfl rfl)
        .announcesQueued
      have hall := hqueued.trans (deliverAnnounce_posts _ va i)
      rw [List.append_assoc, List.append_assoc] at hall
      exact ⟨_, _, .takenIn kept true t₁.announceHandlers, hall⟩
    · cases h
      have hall := hkept.trans (deliverAnnounce_posts t₁ va i)
      rw [List.append_assoc] at hall
      exact ⟨_, _, .takenIn kept false t₁.announceHandlers, hall⟩

theorem emitAnnounceForLocal_posts {d a : Bytes} {pr b : Bool} {only : Option IfaceId}
    (h : t.emitAnnounceForLocal d a pr only = .ok (b, t')) :
    Posts t [] (List.replicate (if b then (only.elim t.interfaces ([·])).length else 0)
      (if pr then .pathResponse else .ownAnnounce)) t' := by
  cases emitsLocal_of_ok h with
  | silent => exact .refl t
  | sent =>
    have hseed := (Posts.refl t).rest (u := { t with seedCalls := t.seedCalls + 1 }) rfl rfl
    exact hseed.transmitAll _ _ _

theorem handlePathRequest_booked (h : t.handlePathRequest i p = .ok t') :
    Booked .pathRequest t t' := by
  have h₀ := Posts.refl t
  have hin : Posts t [.pathRequestsReceived] [] (t.tagged p) :=
    (h₀.count .pathRequestsReceived).rest rfl rfl
  cases requested_of_handlePathRequest h with
  | short => exact ⟨_, _, .short, h₀⟩
  | tagless => exact ⟨_, _, .tagless, h₀.count _⟩
  | repeated =>
    exact ⟨_, _, .unanswered (by simp), (h₀.count .pathRequestsReceived).count .pathRequestsDeduped⟩
  | fresh _ _ _ h =>
    cases h with
    | noSeed => exact ⟨_, _, .unanswered (by simp), hin.count .pathRequestsLocalNoSeed⟩
    | own _ he =>
      have hsent := hin.trans (emitAnnounceForLocal_posts he)
      refine ⟨_, _, .answeredOwn ?_, (hsent.count .pathRequestsLocalAnswered).count
        .pathRequestsAnswered⟩
      exact fun k hk => List.eq_of_mem_replicate hk
    | fromTable =>
      unfold emitPathResponse
      split
      · exact ⟨_, _, .answered (by simp), hin.count _⟩
      · exact ⟨_, _, .answered (by simp), (hin.transmit .pathResponse _ _).count _⟩
    | passOn =>
      simp only [forwardPathRequest]
      split
      · exact ⟨_, _, .passedOn _, (hin.transmitAll _ _ _).count _⟩
      · exact ⟨_, _, .unanswered (by simp), hin.count .pathRequestsUnanswered⟩
    | disabled => exact ⟨_, _, .unanswered (by simp), hin.count .pathRequestsUnanswered⟩

theorem dispatch_booked (h : t.dispatch i p now = .ok t') : Booked p.handler t t' := by
  rw [dispatch_eq] at h
  cases hp : p.handler with
  | announce =>
    rw [hp] at h
    exact handleAnnounce_booked h
  | pathRequest =>
    rw [hp] at h
    exact handlePathRequest_booked h
  | linkData =>
    rw [hp] at h
    cases h
    exact handleLinkDataForward_booked
  | data =>
    rw [hp] at h
    exact handleDataForward_booked h
  | linkRequest =>
    rw [hp] at h
    exact handleLinkRequestForward_booked h
  | linkProof =>
    rw [hp] at h
    cases h
    exact handleLinkProofForward_booked
  | proof =>
    rw [hp] at h
    cases h
    exact handleProofForward_booked

/-! ### The calls -/

/-- What a call books. -/
inductive Entry (t : Transport) : Action → List Counter → List TxKind → Prop
  | dropped {i : IfaceId} {wire : Bytes} {now : Nat} {c : Counter}
    (hc : c ∈ [.ifacUnsupportedDrops, .parseFailures, .dedupDrops]) :
    Entry t (.inbound i wire now) [.inboundPackets, c] []
  | handled {i : IfaceId} {wire : Bytes} {now : Nat} {p : Packet} {cs : List Counter}
    {ks : List TxKind} (hw : arriving wire = some p)
    (h : Books t.paths t.reverseTable p.handler cs ks) :
    Entry t (.inbound i wire now) (.inboundPackets :: cs) ks
  | ticked {now : Nat} (m : Nat) : Entry t (.tick now)
      (List.replicate (t.announceTable.popDue now).1.length .announcesRebroadcast ++
        List.replicate m .scheduledAnnouncesEmitted)
      (List.replicate ((t.announceTable.popDue now).1.length * t.interfaces.length) .rebroadcast ++
        List.replicate (m * t.interfaces.length) .ownAnnounce)
  | apart {a : Action} {ks : List TxKind} (ha : a.isLocal = true)
    (hk : ∀ k ∈ ks, k = .ownAnnounce ∨ k = .pathResponse) : Entry t a [] ks

theorem inbound_entry {wire : Bytes} (h : t.step (.inbound i wire now) = .ok t') :
    ∃ cs ks, Entry t (.inbound i wire now) cs ks ∧ Posts { t with out := [] } cs ks t' := by
  have hin := (Posts.refl { t with out := [] }).count .inboundPackets
  simp only [step, perform, inbound] at h
  split at h
  · cases h
    exact ⟨_, _, .dropped (by simp), hin.count .ifacUnsupportedDrops⟩
  rename_i hflag
  split at h
  · cases h
    exact ⟨_, _, .dropped (by simp), hin.count .parseFailures⟩
  · cases h
  rename_i p hp
  have hw : arriving wire = some p := by
    rw [arriving, if_neg hflag, hp]
    rfl
  split at h
  · cases h
    exact ⟨_, _, .dropped (by simp), (hin.count .dedupDrops).rest rfl rfl⟩
  · obtain ⟨cs, ks, hbooks, hposts⟩ := dispatch_booked h
    refine ⟨_, _, .handled hw hbooks, Posts.trans (hin.rest ?_ ?_) hposts⟩
    · rfl
    · rfl

omit [CryptoLib] in
theorem queueAll_posts (e : AnnounceEntry) (is : List IfaceId) (t : Transport) :
    Posts t [] (List.replicate is.length .rebroadcast) (is.foldl (fun t i => t.queueOn e i) t) := by
  induction is generalizing t with
  | nil => exact .refl t
  | cons i is ih =>
    have hiface := (Posts.refl t).rest (u := { t with iface := (t.queueOn e i).iface }) rfl rfl
    have hone : Posts t [] [.rebroadcast] (t.queueOn e i) := hiface.emit rfl
    exact hone.trans (ih (t.queueOn e i))

omit [CryptoLib] in
theorem queueDue_posts (due : List AnnounceEntry) (t : Transport) :
    Posts t (List.replicate due.length .announcesRebroadcast)
      (List.replicate (due.length * t.interfaces.length) .rebroadcast)
      (due.foldl (fun t e => (t.interfaces.foldl (fun t i => t.queueOn e i) t).count
        .announcesRebroadcast) t) := by
  induction due generalizing t with
  | nil => simpa using Posts.refl t
  | cons e due ih =>
    obtain ⟨-, -, hifaces, -⟩ := queueAll_spec e t.interfaces t
    have hone := (queueAll_posts e t.interfaces t).count .announcesRebroadcast
    have hrest := ih ((t.interfaces.foldl (fun t i => t.queueOn e i) t).count .announcesRebroadcast)
    have hsame : ((t.interfaces.foldl (fun t i => t.queueOn e i) t).count
        .announcesRebroadcast).interfaces = t.interfaces := hifaces
    rw [hsame] at hrest
    have hlen : (due.length + 1) * t.interfaces.length =
        t.interfaces.length + due.length * t.interfaces.length := by
      rw [Nat.add_mul, Nat.one_mul, Nat.add_comm]
    rw [List.length_cons, List.replicate_succ, hlen, ← List.replicate_append_replicate]
    exact hone.trans hrest

/-- A schedule that fires announces once, with one tag for each interface. -/
theorem driveSchedule_posts {sc sc' : ScheduledAnnounce}
    (h : driveSchedule now sc t = .ok (sc', t')) : ∃ m,
      Posts t (List.replicate m .scheduledAnnouncesEmitted)
        (List.replicate (m * t.interfaces.length) .ownAnnounce) t' ∧
      t'.interfaces = t.interfaces := by
  unfold driveSchedule at h
  split at h
  · cases h
    exact ⟨0, by simpa using Posts.refl _, rfl⟩
  · obtain ⟨⟨b, t₁⟩, h₁, h⟩ := bind_eq_ok h
    have hsent := emitAnnounceForLocal_posts h₁
    obtain ⟨n, o, -, s, heq⟩ := emitAnnounceForLocal_frame h₁
    have hifaces : t₁.interfaces = t.interfaces := by
      rw [heq]
    cases h
    cases b with
    | false => exact ⟨0, by simpa using hsent, hifaces⟩
    | true => exact ⟨1, by simpa using hsent.count .scheduledAnnouncesEmitted, hifaces⟩

theorem driveSchedules_posts {l l' : List ScheduledAnnounce}
    (h : driveSchedules now l t = .ok (l', t')) : ∃ m,
      Posts t (List.replicate m .scheduledAnnouncesEmitted)
        (List.replicate (m * t.interfaces.length) .ownAnnounce) t' := by
  induction l generalizing t l' with
  | nil =>
    cases h
    exact ⟨0, by simpa using Posts.refl _⟩
  | cons sc l ih =>
    obtain ⟨⟨sc', t₁⟩, h₁, h⟩ := bind_eq_ok h
    obtain ⟨⟨l₁, t₂⟩, h₂, h⟩ := bind_eq_ok h
    cases h
    obtain ⟨m₁, hone, hifaces⟩ := driveSchedule_posts h₁
    obtain ⟨m₂, hrest⟩ := ih h₂
    refine ⟨m₁ + m₂, ?_⟩
    rw [Nat.add_mul, ← List.replicate_append_replicate, ← List.replicate_append_replicate]
    rw [hifaces] at hrest
    exact hone.trans hrest

omit [CryptoLib] in
theorem tickInterfaces_posts (is : List IfaceId) (t : Transport) :
    Posts t [] [] (is.foldl (fun t i => t.tickInterface i now) t) := by
  induction is generalizing t with
  | nil => exact .refl t
  | cons i is ih =>
    suffices hone : Posts t [] [] (t.tickInterface i now) from hone.trans (ih _)
    refine ⟨fun c => rfl, ?_⟩
    have hnone : (((t.iface i).tick now).2.map (Event.drained i)).filterMap Event.kind = [] := by
      simp [Event.kind]
    rw [kinds, tickInterface, List.filterMap_append, hnone]
    rfl

theorem tick_entry (h : t.step (.tick now) = .ok t') :
    ∃ cs ks, Entry t (.tick now) cs ks ∧ Posts { t with out := [] } cs ks t' := by
  obtain ⟨t₁, h₁, h⟩ := bind_eq_ok (h : tick { t with out := [] } now = .ok t')
  obtain ⟨⟨sch, t₂⟩, h₂, h₁⟩ := bind_eq_ok h₁
  cases h₁
  cases h
  have hstart := (Posts.refl { t with out := [] }).rest (u := { t with
    out := []
    announceTable := (t.announceTable.popDue now).2 }) rfl rfl
  have hqueue : Posts { t with out := [] } _ _
      (driveAnnounceRebroadcast { t with out := [] } now) :=
    hstart.trans (queueDue_posts (t.announceTable.popDue now).1 _)
  obtain ⟨s, f, n, o, -, heq⟩ := driveAnnounceRebroadcast_idles { t with out := [] } now
  have hifaces : (driveAnnounceRebroadcast { t with out := [] } now).interfaces = t.interfaces := by
    rw [heq]
  obtain ⟨m, hsched⟩ := driveSchedules_posts h₂
  rw [hifaces] at hsched
  have hticks : Posts { t₂ with scheduledAnnounces := sch } [] []
      (t₂.interfaces.foldl (fun t i => t.tickInterface i now)
        { t₂ with scheduledAnnounces := sch }) := tickInterfaces_posts t₂.interfaces _
  have hall := ((hqueue.trans hsched).rest (u := { t₂ with scheduledAnnounces := sch })
    rfl rfl).trans hticks
  rw [List.append_nil, List.append_nil] at hall
  exact ⟨_, _, .ticked m, hall.rest rfl rfl⟩

theorem step_entered {a : Action} (h : t.step a = .ok t') :
    ∃ cs ks, Entry t a cs ks ∧ Posts { t with out := [] } cs ks t' := by
  cases a with
  | inbound i wire now => exact inbound_entry h
  | tick now => exact tick_entry h
  | emitAnnounceForLocal d data pr only =>
    obtain ⟨⟨b, t₁⟩, h₁, h⟩ := map_eq_ok h
    cases h
    refine ⟨_, _, .apart rfl ?_, emitAnnounceForLocal_posts h₁⟩
    intro k hk
    rw [List.eq_of_mem_replicate hk]
    cases pr with
    | true => exact .inr rfl
    | false => exact .inl rfl
  | _ =>
    cases h
    exact ⟨_, _, .apart rfl (by simp), .of_eq rfl rfl⟩

end
end Transport
end Reticulum
