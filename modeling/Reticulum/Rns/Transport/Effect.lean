import Reticulum.Rns.Transport.Step

/-!
# What each handler does

One lemma a handler, in the form `t' = { t with … }`, so that what a field is after a call is read
off by `rfl`. The pure counterparts (`reissued`, `relayOf`, `route`) say which packets a node sends
on: header conversion throws only on packets and identities that cannot be built.
-/

namespace Reticulum

/-- Relayed traffic, as opposed to announces, path requests, path responses and callbacks. -/
def Event.forwards : Event → Bool
  | .transmit .dataForward _ _ | .transmit .proofForward _ _ | .transmit .linkForward _ _ => true
  | _ => false

def Event.emits : Event → Bool
  | .transmit .ownAnnounce _ _ | .transmit .pathResponse _ _ => true
  | _ => false

theorem Event.forwards_of_emits {e : Event} (h : e.emits = true) : e.forwards = false := by
  cases e with
  | transmit kind i w => cases kind <;> first | rfl | cases h
  | _ => rfl

namespace Transport

@[simp] theorem count_localIdentity (t : Transport) (c : Counter) :
    (t.count c).localIdentity = t.localIdentity := rfl

@[simp] theorem count_paths (t : Transport) (c : Counter) : (t.count c).paths = t.paths := rfl

@[simp] theorem count_linkTable (t : Transport) (c : Counter) :
    (t.count c).linkTable = t.linkTable := rfl

@[simp] theorem count_reverseTable (t : Transport) (c : Counter) :
    (t.count c).reverseTable = t.reverseTable := rfl

@[simp] theorem count_hashlist (t : Transport) (c : Counter) :
    (t.count c).hashlist = t.hashlist := rfl

/-- `t'` is `t` but for counters and the further events `o`. -/
def Adds (t : Transport) (o : List Event) (t' : Transport) : Prop :=
  ∃ s, t' = { t with stats := s, out := t.out ++ o }

namespace Adds
variable {t t' t'' : Transport} {o o' : List Event}

theorem refl (t : Transport) : Adds t [] t := ⟨t.stats, by simp⟩

theorem trans (h : Adds t o t') (h' : Adds t' o' t'') : Adds t (o ++ o') t'' := by
  obtain ⟨s, rfl⟩ := h
  obtain ⟨s', rfl⟩ := h'
  exact ⟨s', by simp⟩

theorem count (h : Adds t o t') (c : Counter) : Adds t o (t'.count c) := by
  obtain ⟨s, rfl⟩ := h
  exact ⟨_, rfl⟩

theorem emit (h : Adds t o t') (e : Event) : Adds t (o ++ [e]) (t'.emit e) := by
  obtain ⟨s, rfl⟩ := h
  exact ⟨s, by simp [Transport.emit]⟩

theorem foldl {ι : Type} (f : Transport → ι → Transport) (g : ι → Event)
    (hf : ∀ t i, Adds t [g i] (f t i)) (l : List ι) (t : Transport) :
    Adds t (l.map g) (l.foldl f t) := by
  induction l generalizing t with
  | nil => exact refl t
  | cons i l ih => exact (hf t i).trans (ih _)

end Adds

theorem adds_transmitNow (t : Transport) (kind : TxKind) (i : IfaceId) (wire : Bytes) :
    Adds t [.transmit kind i wire] (t.transmitNow kind i wire) := (Adds.refl t).emit _

theorem adds_transmitAll (t : Transport) (kind : TxKind) (is : List IfaceId) (wire : Bytes) :
    Adds t (is.map fun i => .transmit kind i wire)
      (is.foldl (fun t i => t.transmitNow kind i wire) t) :=
  Adds.foldl _ _ (fun t i => adds_transmitNow t kind i wire) is t

theorem deliverAnnounce_eq (t : Transport) (va : ValidatedAnnounce) (i : IfaceId) :
    ∃ s, (∀ c ≠ .announcesDelivered, s c = t.stats c) ∧ t.deliverAnnounce va i = { t with
      stats := s
      out := t.out ++ (List.range t.announceHandlers).map fun _ => .announceHandler va i } := by
  suffices h : ∀ (l : List Nat) (t : Transport), ∃ s, (∀ c ≠ .announcesDelivered,
      s c = t.stats c) ∧ l.foldl (fun t _ => (t.emit (.announceHandler va i)).count
        .announcesDelivered) t =
      { t with stats := s, out := t.out ++ l.map fun _ => .announceHandler va i } from h _ t
  intro l
  induction l with
  | nil => exact fun t => ⟨t.stats, fun _ _ => rfl, by simp⟩
  | cons n l ih =>
    intro t
    obtain ⟨s, hs, h⟩ := ih ((t.emit (.announceHandler va i)).count .announcesDelivered)
    refine ⟨s, fun c hc => ?_, ?_⟩
    · rw [hs c hc]
      exact if_neg hc
    · rw [List.foldl_cons, h]
      simp [count, emit]

end Transport

/-! ### Announces -/

/-- What `relayedAnnounce` builds: it does not throw under a well-formed identity. -/
def reissued (id : Identity) (p : Packet) : Packet :=
  if h1 : p.headerType = .header1 then p.asHeader2 id.identityHash id.identityHash_length
  else p.withTransportId (by cases h : p.headerType <;> simp_all) id.identityHash
    id.identityHash_length

theorem relayedAnnounce_eq (id : Identity) (p : Packet) :
    relayedAnnounce id.identityHash p = .ok (reissued id p) := by
  unfold relayedAnnounce reissued
  split
  · exact Packet.originatorToHeader2_eq ‹_› _
  · exact Packet.replaceTransportId_eq _ _

namespace Transport

/-- `e` of `cache_validated_announce`. -/
def learnedPath (t : Transport) (va : ValidatedAnnounce) (i : IfaceId) (p : Packet) (now : Nat) :
    PathEntry where
  timestampMs := now
  hops := p.hops
  expiresMs := now + 60 * 60 * 1000
  nextHop := learnedNextHop p
  receivingInterface := some i
  announceWire := (reissued t.localIdentity p).wireBytes
  randomBlobs := ((t.paths.get va.destinationHash).map PathEntry.randomBlobs).getD []

def learnedPaths (t : Transport) (va : ValidatedAnnounce) (i : IfaceId) (p : Packet) (now : Nat) :
    PathTable :=
  if replacesPath (t.paths.get va.destinationHash) p.hops va.randomHash now then
    t.paths.put va.destinationHash (t.learnedPath va i p now)
  else t.paths

/-- What the path observer is told. -/
def pathEvents (t : Transport) (va : ValidatedAnnounce) (p : Packet) (now : Nat) : List Event :=
  if replacesPath (t.paths.get va.destinationHash) p.hops va.randomHash now then
    [.pathObserver {
      destinationHash := va.destinationHash
      hops := p.hops
      nextHop := learnedNextHop p
      isNew := (t.paths.get va.destinationHash).isNone }]
  else []

/-- An announce that is taken in is told to the path observer, if it replaces the path, and to the
announce handlers. -/
theorem of_mem_announceEvents {t : Transport} {va : ValidatedAnnounce} {i : IfaceId} {p : Packet}
    {now n : Nat} {e : Event}
    (h : e ∈ t.pathEvents va p now ++ (List.range n).map fun _ => .announceHandler va i) :
    (∃ u, e = .pathObserver u ∧ u.destinationHash = va.destinationHash ∧
      replacesPath (t.paths.get va.destinationHash) p.hops va.randomHash now = true) ∨
      e = .announceHandler va i := by
  rcases List.mem_append.mp h with h | h
  · unfold pathEvents at h
    split at h
    · rename_i hr
      exact .inl ⟨_, List.mem_singleton.mp h, rfl, hr⟩
    · cases h
  · obtain ⟨_, -, rfl⟩ := List.mem_map.mp h
    exact .inr rfl

theorem cacheValidatedAnnounce_eq (t : Transport) (va : ValidatedAnnounce) (i : IfaceId)
    (p : Packet) (now : Nat) :
    t.cacheValidatedAnnounce va i p now =
      .ok (((t.learnedPaths va i p now).noteRandomBlob va.destinationHash va.randomHash).1, { t with
        stats :=
          if replacesPath (t.paths.get va.destinationHash) p.hops va.randomHash now then t.stats
          else (t.count .pathReplacementRejected).stats
        out := t.out ++ t.pathEvents va p now
        knownDestinations := t.knownDestinations.insert (keyOf va.destinationHash) va.publicKey
        paths :=
          ((t.learnedPaths va i p now).noteRandomBlob va.destinationHash va.randomHash).2 }) := by
  unfold cacheValidatedAnnounce learnedPaths pathEvents
  simp only [relayedAnnounce_eq]
  split
  · rfl
  · simp only [List.append_nil]
    rfl

variable [CryptoLib]

/-- The checks of `handle_announce`: the announce it takes in. -/
def accepts (t : Transport) (p : Packet) : Option ValidatedAnnounce :=
  (Identity.validateAnnounce p).filter fun va =>
    identityHashOf va.publicKey ≠ t.localIdentity.identityHash ∧
      !t.isBlackholed (identityHashOf va.publicKey) ∧
      !(t.publicKeyFor va.destinationHash).any (· ≠ va.publicKey)

theorem handleAnnounce_of_accepts_none {t : Transport} {p : Packet} (i : IfaceId) (now : Nat)
    (h : t.accepts p = none) : ∃ s, t.handleAnnounce i p now = .ok { t with stats := s } := by
  unfold handleAnnounce
  cases hv : Identity.validateAnnounce p with
  | none => exact ⟨_, rfl⟩
  | some va =>
    simp only
    split
    · exact ⟨_, rfl⟩
    split
    · exact ⟨_, rfl⟩
    split
    · exact ⟨_, rfl⟩
    · simp_all [accepts, Option.filter]

def queuedAnnounce (t : Transport) (va : ValidatedAnnounce) (i : IfaceId) (p : Packet) (now : Nat) :
    AnnounceEntry where
  destHash := va.destinationHash
  insertedMs := now
  retransmitAtMs := now
  retries := 0
  receivedFrom := some i
  announceHops := (reissued t.localIdentity p).hops
  announceWire := (reissued t.localIdentity p).wireBytes

/-- Taking an announce in, to the last event and counter. -/
theorem handleAnnounce_takeIn {t : Transport} {p : Packet} {va : ValidatedAnnounce} (i : IfaceId)
    (now : Nat) (h : t.accepts p = some va) :
    ∃ s, (∀ c ≠ .announcesDelivered, s c = t.stats c + (if c = .announceValidated then 1 else 0) +
        (if c = .pathReplacementRejected ∧
          replacesPath (t.paths.get va.destinationHash) p.hops va.randomHash now = false
          then 1 else 0) +
        if c = .announcesQueued ∧ t.transportEnabled ∧ p.context ≠ contextPathResponse ∧
          ((t.learnedPaths va i p now).noteRandomBlob va.destinationHash va.randomHash).1
          then 1 else 0) ∧
      t.handleAnnounce i p now = .ok { t with
        stats := s
        out := t.out ++ (t.pathEvents va p now ++
          (List.range t.announceHandlers).map fun _ => .announceHandler va i)
        knownDestinations := t.knownDestinations.insert (keyOf va.destinationHash) va.publicKey
        paths := ((t.learnedPaths va i p now).noteRandomBlob va.destinationHash va.randomHash).2
        announceTable :=
          if t.transportEnabled ∧ p.context ≠ contextPathResponse ∧
            ((t.learnedPaths va i p now).noteRandomBlob va.destinationHash va.randomHash).1
          then t.announceTable.put (t.queuedAnnounce va i p now) else t.announceTable } := by
  obtain ⟨hv, hf⟩ := Option.filter_eq_some_iff.mp h
  have hcache := (t.count .announceValidated).cacheValidatedAnnounce_eq va i p now
  generalize ht₁ : ({ t.count .announceValidated with
    stats :=
      if replacesPath (t.paths.get va.destinationHash) p.hops va.randomHash now
      then (t.count .announceValidated).stats
      else ((t.count .announceValidated).count .pathReplacementRejected).stats
    out := t.out ++ t.pathEvents va p now
    knownDestinations := t.knownDestinations.insert (keyOf va.destinationHash) va.publicKey
    paths := ((t.learnedPaths va i p now).noteRandomBlob va.destinationHash va.randomHash).2 } :
      Transport) = t₁
  have heq : t.handleAnnounce i p now = (do
      let t₂ ←
        if t.transportEnabled ∧ p.context ≠ contextPathResponse ∧
          ((t.learnedPaths va i p now).noteRandomBlob va.destinationHash va.randomHash).1 then
          pure ({ t₁ with announceTable :=
            t₁.announceTable.put (t₁.queuedAnnounce va i p now) }.count .announcesQueued)
        else pure t₁
      return t₂.deliverAnnounce va i) := by
    unfold handleAnnounce
    simp only [hv]
    rw [if_neg (by simp_all), if_neg (by simp_all), if_neg (by simp_all), hcache, ← ht₁]
    simp only [relayedAnnounce_eq]
    rfl
  have hstats : ∀ c, t₁.stats c = t.stats c + (if c = .announceValidated then 1 else 0) +
      if c = .pathReplacementRejected ∧
        replacesPath (t.paths.get va.destinationHash) p.hops va.randomHash now = false
      then 1 else 0 := by
    intro c
    rw [← ht₁]
    cases replacesPath (t.paths.get va.destinationHash) p.hops va.randomHash now <;>
      cases c <;> simp [count]
  rw [heq]
  by_cases hc : t.transportEnabled = true ∧ p.context ≠ contextPathResponse ∧
      ((t.learnedPaths va i p now).noteRandomBlob va.destinationHash va.randomHash).1 = true
  · simp only [if_pos hc]
    obtain ⟨s, hs, hd⟩ := deliverAnnounce_eq (count { t₁ with
      announceTable := t₁.announceTable.put (t₁.queuedAnnounce va i p now) } .announcesQueued) va i
    refine ⟨s, fun c hne => ?_, (congrArg Except.ok hd).trans ?_⟩
    · rw [hs c hne]
      simp only [count, hstats]
      cases c <;> simp [hc]
    · rw [← ht₁, ← List.append_assoc]
      rfl
  · simp only [if_neg hc]
    obtain ⟨s, hs, hd⟩ := deliverAnnounce_eq t₁ va i
    refine ⟨s, fun c hne => ?_, (congrArg Except.ok hd).trans ?_⟩
    · rw [hs c hne, hstats]
      simp only [hc, and_false, ↓reduceIte, Nat.add_zero]
    · rw [← ht₁, ← List.append_assoc]
      rfl

theorem handleAnnounce_of_accepts {t : Transport} {p : Packet} {va : ValidatedAnnounce}
    (i : IfaceId) (now : Nat) (h : t.accepts p = some va) :
    ∃ o t', (∀ e ∈ o, e.forwards = false) ∧
      Adds { t with
        knownDestinations := t.knownDestinations.insert (keyOf va.destinationHash) va.publicKey
        paths := ((t.learnedPaths va i p now).noteRandomBlob va.destinationHash va.randomHash).2
        announceTable :=
          if t.transportEnabled ∧ p.context ≠ contextPathResponse ∧
            ((t.learnedPaths va i p now).noteRandomBlob va.destinationHash va.randomHash).1
          then t.announceTable.put (t.queuedAnnounce va i p now) else t.announceTable } o t' ∧
      t.handleAnnounce i p now = .ok t' := by
  obtain ⟨s, -, heq⟩ := handleAnnounce_takeIn i now h
  refine ⟨_, _, fun e he => ?_, ⟨s, rfl⟩, heq⟩
  rcases of_mem_announceEvents he with ⟨u, rfl, -, -⟩ | rfl
  · rfl
  · rfl

/-- What `emit_announce_for_local` can do: nothing, or an announce of the destination goes out. -/
inductive EmitsLocal (t : Transport) (d a : Bytes) (pr : Bool) (only : Option IfaceId) :
    Bool → Transport → Prop
  | silent : EmitsLocal t d a pr only false t
  | sent {dest : Destination} {seedFn : Nat → AnnounceSeed} {wire : Bytes}
    (hdest : t.localDestinations.lookup (keyOf d) = some dest)
    (hseed : t.announceSeedFn = some seedFn)
    (hwire : dest.buildAnnounce (seedFn t.seedCalls).randomPrefix (seedFn t.seedCalls).unixSeconds
      a [] pr = .ok wire) :
    EmitsLocal t d a pr only true ((only.elim t.interfaces ([·])).foldl
      (fun t i => t.transmitNow (if pr then .pathResponse else .ownAnnounce) i wire)
      { t with seedCalls := t.seedCalls + 1 })

theorem emitsLocal_of_ok {t t' : Transport} {d a : Bytes} {pr b : Bool} {only : Option IfaceId}
    (h : t.emitAnnounceForLocal d a pr only = .ok (b, t')) : EmitsLocal t d a pr only b t' := by
  unfold emitAnnounceForLocal at h
  split at h
  · cases h
    exact .silent
  rename_i dest hdest
  split at h
  · cases h
    exact .silent
  rename_i seedFn hseed
  obtain ⟨wire, hwire, h⟩ := bind_eq_ok h
  cases only <;> cases h <;> exact .sent hdest hseed hwire

theorem emitAnnounceForLocal_frame {t t' : Transport} {d a : Bytes} {pr b : Bool}
    {only : Option IfaceId} (h : t.emitAnnounceForLocal d a pr only = .ok (b, t')) :
    ∃ n o, (∀ e ∈ o, e.emits = true) ∧ Adds { t with seedCalls := n } o t' := by
  cases emitsLocal_of_ok h with
  | silent => exact ⟨t.seedCalls, [], by simp, Adds.refl _⟩
  | sent =>
    refine ⟨_, _, ?_, adds_transmitAll _ _ _ _⟩
    cases pr <;> simp [Event.emits]

/-! ### Path requests -/

omit [CryptoLib] in
theorem emitPathResponse_adds (t : Transport) (i : IfaceId) (e : PathEntry) :
    ∃ o, (∀ ev ∈ o, ev.forwards = false) ∧ Adds t o (t.emitPathResponse i e) := by
  unfold emitPathResponse
  split
  · exact ⟨[], by simp, Adds.refl t⟩
  · exact ⟨_, by simp [Event.forwards], adds_transmitNow _ _ _ _⟩

omit [CryptoLib] in
theorem forwardPathRequest_adds (t : Transport) (i : IfaceId) (p : Packet) :
    ∃ o, (∀ ev ∈ o, ev.forwards = false) ∧ Adds t o (t.forwardPathRequest i p) := by
  simp only [forwardPathRequest]
  split
  · refine ⟨_, fun e he => ?_, (adds_transmitAll _ _ _ _).count _⟩
    obtain ⟨j, -, rfl⟩ := List.mem_map.mp he
    rfl
  · exact ⟨[], by simp, (Adds.refl t).count _⟩

/-- The request is counted, and its tag is in the ring. -/
def tagged (t : Transport) (p : Packet) : Transport :=
  { t.count .pathRequestsReceived with
    prTags := (t.prTags.insert (p.data.slice 0 16 ++ pathRequestTag p.data)).2 }

/-- What is done with a request that is no duplicate. -/
inductive Resolves (t : Transport) (i : IfaceId) (p : Packet) : Transport → Prop
  | noSeed (hlocal : t.isLocalDestination (p.data.slice 0 16) = true) :
    Resolves t i p (t.count .pathRequestsLocalNoSeed)
  | own {b : Bool} {t₁ : Transport} (hlocal : t.isLocalDestination (p.data.slice 0 16) = true)
    (he : t.emitAnnounceForLocal (p.data.slice 0 16) [] true (some i) = .ok (b, t₁)) :
    Resolves t i p ((t₁.count .pathRequestsLocalAnswered).count .pathRequestsAnswered)
  | fromTable {e : PathEntry} (hlocal : ¬t.isLocalDestination (p.data.slice 0 16) = true)
    (hget : t.paths.get (p.data.slice 0 16) = some e) (henabled : t.transportEnabled = true) :
    Resolves t i p ((t.emitPathResponse i e).count .pathRequestsAnswered)
  | passOn (hlocal : ¬t.isLocalDestination (p.data.slice 0 16) = true)
    (hget : t.paths.get (p.data.slice 0 16) = none) : Resolves t i p (t.forwardPathRequest i p)
  | disabled (hlocal : ¬t.isLocalDestination (p.data.slice 0 16) = true) :
    Resolves t i p (t.count .pathRequestsUnanswered)

/-- What `handle_path_request` can do. -/
inductive Requested (t : Transport) (i : IfaceId) (p : Packet) : Transport → Prop
  | short (hlen : p.data.length < 16) : Requested t i p t
  | tagless (htag : (pathRequestTag p.data).length = 0) :
    Requested t i p (t.count .pathRequestsTagless)
  | repeated (hlen : ¬p.data.length < 16) (htag : (pathRequestTag p.data).length ≠ 0)
    (hold : t.prTags.contains (p.data.slice 0 16 ++ pathRequestTag p.data) = true) :
    Requested t i p ((t.count .pathRequestsReceived).count .pathRequestsDeduped)
  | fresh {t' : Transport} (hlen : ¬p.data.length < 16)
    (htag : (pathRequestTag p.data).length ≠ 0)
    (hnew : t.prTags.contains (p.data.slice 0 16 ++ pathRequestTag p.data) = false)
    (h : Resolves (t.tagged p) i p t') : Requested t i p t'

theorem requested_of_handlePathRequest {t t' : Transport} {i : IfaceId} {p : Packet}
    (h : t.handlePathRequest i p = .ok t') : Requested t i p t' := by
  simp only [handlePathRequest] at h
  split at h
  · cases h
    exact .short ‹_›
  rename_i hlen
  split at h
  · cases h
    exact .tagless ‹_›
  rename_i htag
  have htags : (t.count .pathRequestsReceived).prTags = t.prTags := rfl
  rw [htags] at h
  cases hseen : t.prTags.contains (p.data.slice 0 16 ++ pathRequestTag p.data) with
  | true =>
    rw [PacketHashList.insert_of_contains hseen] at h
    cases h
    exact .repeated hlen htag hseen
  | false =>
    refine .fresh hlen htag hseen ?_
    rw [PacketHashList.insert_of_not_contains hseen] at h
    simp only [Bool.not_true, Bool.false_eq_true, if_false] at h
    split at h
    · rename_i hlocal
      split at h
      · cases h
        exact .noSeed hlocal
      · obtain ⟨⟨b, t₁⟩, he, h⟩ := bind_eq_ok h
        cases h
        exact .own hlocal he
    · rename_i hlocal
      split at h <;> cases h
      · exact .fromTable hlocal ‹_› ‹_›
      · exact .passOn hlocal ‹_›
      · exact .disabled hlocal

theorem handlePathRequest_frame {t t' : Transport} {i : IfaceId} {p : Packet}
    (h : t.handlePathRequest i p = .ok t') :
    ∃ l n o, (∀ e ∈ o, e.forwards = false) ∧
      Adds { t with prTags := l, seedCalls := n } o t' := by
  have hrefl := Adds.refl t
  have htagged : Adds { t with
      prTags := (t.tagged p).prTags, seedCalls := t.seedCalls } [] (t.tagged p) :=
    (Adds.refl { t with prTags := (t.tagged p).prTags }).count .pathRequestsReceived
  cases requested_of_handlePathRequest h with
  | short => exact ⟨t.prTags, t.seedCalls, [], by simp, hrefl⟩
  | tagless => exact ⟨t.prTags, t.seedCalls, [], by simp, hrefl.count _⟩
  | repeated => exact ⟨t.prTags, t.seedCalls, [], by simp, (hrefl.count _).count _⟩
  | fresh _ _ _ h =>
    cases h with
    | noSeed => exact ⟨_, _, [], by simp, htagged.count _⟩
    | own _ he =>
      obtain ⟨n, o, ho, s, rfl⟩ := emitAnnounceForLocal_frame he
      exact ⟨_, n, o, fun e he => Event.forwards_of_emits (ho e he), _, rfl⟩
    | @fromTable e =>
      obtain ⟨o, ho, hadds⟩ := (t.tagged p).emitPathResponse_adds i e
      exact ⟨_, _, o, ho, (htagged.trans hadds).count _⟩
    | passOn =>
      obtain ⟨o, ho, hadds⟩ := (t.tagged p).forwardPathRequest_adds i p
      exact ⟨_, _, o, ho, htagged.trans hadds⟩
    | disabled => exact ⟨_, _, [], by simp, htagged.count _⟩

end Transport

/-! ### Relaying -/

/-- Where `compute_relay_forward` sends a HEADER_2 packet, and as what. -/
def relayOf (p : Packet) (h2 : p.headerType = .header2) (e : PathEntry) :
    Option (IfaceId × Packet) :=
  e.receivingInterface.bind fun o =>
    if e.hops > 1 then
      if h : e.nextHop.length = transportIdLen then some (o, p.withTransportId h2 e.nextHop h)
      else none
    else if e.hops = 1 then some (o, p.asHeader1)
    else none

theorem computeRelayForward_eq (p : Packet) (h2 : p.headerType = .header2) (e : PathEntry) :
    computeRelayForward p e = .ok ((relayOf p h2 e).map fun f => ⟨f.1, f.2.wireBytes⟩) := by
  unfold computeRelayForward relayOf
  cases e.receivingInterface with
  | none => rfl
  | some o =>
    simp only [Option.bind_some]
    split
    · split
      · simp [*]
      · rw [dif_pos (not_not.mp ‹_›), Packet.replaceTransportId_eq h2 (not_not.mp ‹_›)]; rfl
    · split
      · rw [Packet.stripTransportIdToHeader1_eq h2]; rfl
      · rfl

theorem relayOf_zero {p : Packet} {h2 : p.headerType = .header2} {e : PathEntry} (h : e.hops = 0) :
    relayOf p h2 e = none := by
  unfold relayOf
  cases e.receivingInterface <;> simp [h]

namespace Transport

/-- The path, the interface and the packet with which this node relays `p`, if it is asked to. -/
def route (t : Transport) (p : Packet) : Option (PathEntry × IfaceId × Packet) :=
  if h : p.headerType = .header2 ∧ p.transportId = t.localIdentity.identityHash then
    (t.paths.get p.destinationHash).bind fun e => (relayOf p h.1 e).map (e, ·)
  else none

theorem route_eq_some {t : Transport} {p q : Packet} {e : PathEntry} {o : IfaceId}
    (h : t.route p = some (e, o, q)) : ∃ h2 : p.headerType = .header2,
      p.transportId = t.localIdentity.identityHash ∧ t.paths.get p.destinationHash = some e ∧
      relayOf p h2 e = some (o, q) := by
  unfold route at h
  split at h
  · obtain ⟨e', he, h⟩ := Option.bind_eq_some_iff.mp h
    obtain ⟨f, hf, h⟩ := Option.map_eq_some_iff.mp h
    cases h
    exact ⟨_, ‹_ ∧ _›.2, he, hf⟩
  · cases h

variable [CryptoLib]

theorem handleDataForward_of_route_none {t : Transport} {p : Packet} (i : IfaceId) (now : Nat)
    (h : t.route p = none) : ∃ s, t.handleDataForward i p now = .ok { t with stats := s } := by
  simp only [handleDataForward]
  split
  · exact ⟨_, rfl⟩
  split
  · exact ⟨_, rfl⟩
  split
  · exact ⟨_, rfl⟩
  · split
    · exact ⟨_, rfl⟩
    · rename_i h2 hid _ e he _
      have hr : relayOf p (not_not.mp h2) e = none := by
        simpa [route, not_not.mp h2, show p.transportId = t.localIdentity.identityHash from
          not_not.mp hid, show t.paths.get p.destinationHash = some e from he] using h
      rw [computeRelayForward_eq p (not_not.mp h2), hr]
      exact ⟨_, rfl⟩

theorem handleDataForward_of_route {t : Transport} {p q : Packet} {e : PathEntry} {o : IfaceId}
    (i : IfaceId) (now : Nat) (h : t.route p = some (e, o, q)) :
    ∃ s, t.handleDataForward i p now = .ok { t with
      stats := s
      out := t.out ++ [.transmit .dataForward o q.wireBytes]
      reverseTable := t.reverseTable.put ⟨proofHash p, some i, some o, now⟩ } := by
  obtain ⟨h2, hid, he, hr⟩ := route_eq_some h
  have h0 : e.hops ≠ 0 := fun h0 => by simp [relayOf_zero h0] at hr
  simp only [handleDataForward, count_localIdentity, count_paths, ne_eq, h2, hid, he, h0,
    not_true_eq_false, ↓reduceIte, computeRelayForward_eq p h2, hr, Option.map_some]
  generalize hu : t.count .dataInbound = u
  generalize (if e.hops > 1 then Counter.dataForwardedHeader2 else .dataForwardedHeader1) = c
  have hu' : u = { t with stats := u.stats } := hu ▸ rfl
  exact ⟨(u.count c).stats, by rw [hu']; rfl⟩

/-- `entry` of `handle_link_request_forward`. -/
def requestedLink (p : Packet) (e : PathEntry) (i o : IfaceId) (now : Nat) : LinkEntry where
  linkId := linkIdFromLrPacket p
  timestampMs := now
  nextHopId := e.nextHop
  nhIf := some o
  remHops := if e.hops > 0 then e.hops - 1 else 0
  rcvdIf := some i
  takenHops := p.hops
  dstHash := p.destinationHash
  validated := false
  proofTimeoutMs := now + 60 * 1000
  lastActivityMs := now

theorem handleLinkRequestForward_of_route_none {t : Transport} {p : Packet} (i : IfaceId)
    (now : Nat) (h : t.route p = none) : t.handleLinkRequestForward i p now = .ok t := by
  simp only [handleLinkRequestForward]
  split
  · rfl
  split
  · rfl
  split
  · rfl
  · split
    · rfl
    · rename_i h2 hid _ e he _
      have hr : relayOf p (not_not.mp h2) e = none := by
        simpa [route, not_not.mp h2, not_not.mp hid, he] using h
      rw [computeRelayForward_eq p (not_not.mp h2), hr]
      rfl

theorem handleLinkRequestForward_of_route {t : Transport} {p q : Packet} {e : PathEntry}
    {o : IfaceId} (i : IfaceId) (now : Nat) (h : t.route p = some (e, o, q)) :
    ∃ s, t.handleLinkRequestForward i p now = .ok { t with
      stats := s
      out := t.out ++ [.transmit .linkForward o
        (maybeClampLrSignalling q.wireBytes (t.iface o).hwMtuBytes)]
      linkTable := t.linkTable.put (requestedLink p e i o now) } := by
  obtain ⟨h2, hid, he, hr⟩ := route_eq_some h
  have h0 : e.hops ≠ 0 := fun h0 => by simp [relayOf_zero h0] at hr
  simp only [handleLinkRequestForward, ne_eq, h2, hid, he, h0, not_true_eq_false, ↓reduceIte,
    computeRelayForward_eq p h2, hr]
  exact ⟨_, rfl⟩

/-! ### Proofs and link traffic -/

/-- The return route a proof may take. -/
def proofRoute (t : Transport) (i : IfaceId) (p : Packet) : Option ReverseEntry :=
  (t.reverseTable.get p.destinationHash).filter (·.outboundIf = some i)

omit [CryptoLib] in
theorem handleProofForward_of_proofRoute_none {t : Transport} {i : IfaceId} {p : Packet}
    (h : t.proofRoute i p = none) : ∃ s, t.handleProofForward i p = { t with stats := s } := by
  simp only [handleProofForward, count_reverseTable]
  split
  · exact ⟨_, rfl⟩
  split
  · exact ⟨_, rfl⟩
  · simp_all [proofRoute, Option.filter]

omit [CryptoLib] in
theorem handleProofForward_of_proofRoute {t : Transport} {i : IfaceId} {p : Packet}
    {e : ReverseEntry} (h : t.proofRoute i p = some e) :
    ∃ s, t.handleProofForward i p = { t with
      stats := s
      out := t.out ++ e.receivedIf.toList.map fun f => .transmit .proofForward f p.wireBytes
      reverseTable := (t.reverseTable.pop p.destinationHash).2 } := by
  obtain ⟨he, hi⟩ := Option.filter_eq_some_iff.mp h
  simp only [decide_eq_true_eq] at hi
  simp only [handleProofForward, count_reverseTable, he, hi, ne_eq, not_true_eq_false, ↓reduceIte]
  cases e.receivedIf with
  | none => exact ⟨(t.count .proofInbound).stats, by simp [count]⟩
  | some f => exact ⟨_, rfl⟩

/-- The pending link an LRPROOF completes, and the interface it travels on to. -/
def provenLink (t : Transport) (i : IfaceId) (p : Packet) : Option (LinkEntry × IfaceId) :=
  ((t.linkTable.get p.destinationHash).filter fun e =>
    e.nhIf = some i ∧ t.lrproofVerifies e p).bind fun e => e.rcvdIf.map (e, ·)

theorem handleLinkProofForward_of_provenLink_none {t : Transport} {i : IfaceId} {p : Packet}
    (now : Nat) (h : t.provenLink i p = none) :
    ∃ s, t.handleLinkProofForward i p now = { t with stats := s } := by
  simp only [handleLinkProofForward]
  split
  · exact ⟨_, rfl⟩
  split
  · exact ⟨_, rfl⟩
  split
  · exact ⟨_, rfl⟩
  split
  · exact ⟨_, rfl⟩
  · simp_all [provenLink, Option.filter]

theorem handleLinkProofForward_of_provenLink {t : Transport} {i f : IfaceId} {p : Packet}
    {e : LinkEntry} (now : Nat) (h : t.provenLink i p = some (e, f)) :
    ∃ s, t.handleLinkProofForward i p now = { t with
      stats := s
      out := t.out ++ [.transmit .linkForward f p.wireBytes]
      linkTable := t.linkTable.getMut p.destinationHash fun e =>
        { e with validated := true, lastActivityMs := now } } := by
  obtain ⟨e', he', h⟩ := Option.bind_eq_some_iff.mp h
  obtain ⟨f', hf, h⟩ := Option.map_eq_some_iff.mp h
  cases h
  obtain ⟨he, hi⟩ := Option.filter_eq_some_iff.mp he'
  simp only [decide_eq_true_eq] at hi
  simp only [handleLinkProofForward, he, hi.1, hi.2, hf, ne_eq, not_true_eq_false, ↓reduceIte,
    Bool.not_true, Bool.false_eq_true]
  exact ⟨_, rfl⟩

/-- The established link that carries a packet, and the interface it travels on to. -/
def linkRoute (t : Transport) (i : IfaceId) (p : Packet) : Option (LinkEntry × IfaceId) :=
  ((t.linkTable.get p.destinationHash).filter (·.validated)).bind fun e =>
    (oppositeIf e i).map (e, ·)

omit [CryptoLib] in
theorem handleLinkDataForward_of_linkRoute_none {t : Transport} {i : IfaceId} {p : Packet}
    (now : Nat) (h : t.linkRoute i p = none) :
    ∃ s, t.handleLinkDataForward i p now = { t with stats := s } := by
  simp only [handleLinkDataForward]
  split
  · exact ⟨_, rfl⟩
  split
  · exact ⟨_, rfl⟩
  split
  · exact ⟨t.stats, rfl⟩
  · simp_all [linkRoute, Option.filter]

def relayedLinks (t : Transport) (p : Packet) (now : Nat) : LinkTable :=
  let touched := t.linkTable.getMut p.destinationHash fun e => { e with lastActivityMs := now }
  if p.context = contextLinkclose then (touched.remove p.destinationHash).2 else touched

omit [CryptoLib] in
theorem handleLinkDataForward_of_linkRoute {t : Transport} {i f : IfaceId} {p : Packet}
    {e : LinkEntry} (now : Nat) (h : t.linkRoute i p = some (e, f)) :
    ∃ s, t.handleLinkDataForward i p now = { t with
      stats := s
      out := t.out ++ [.transmit .linkForward f p.wireBytes]
      linkTable := t.relayedLinks p now } := by
  obtain ⟨e', he', h⟩ := Option.bind_eq_some_iff.mp h
  obtain ⟨f', hf, h⟩ := Option.map_eq_some_iff.mp h
  cases h
  obtain ⟨he, hi⟩ := Option.filter_eq_some_iff.mp he'
  simp only [handleLinkDataForward, he, hi, hf, Bool.not_true, Bool.false_eq_true, ↓reduceIte,
    relayedLinks]
  split <;> exact ⟨_, rfl⟩

end Transport
end Reticulum
