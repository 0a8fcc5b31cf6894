import Reticulum.Rlr.Radio
import Reticulum.Rns.Transport.Freshness
import Reticulum.Rns.Transport.LinkLine
import Reticulum.Rns.Transport.Returns

/-!
# The payload limit

The radio takes packets of up to `Radio.maxPayload` bytes. A relay keeps the length of what it
forwards or shortens it; only a HEADER_1 announce grows, by the transport id it is re-issued under,
and the longer form is what the node caches, queues and answers requests with. A node that is no
relay caches it too, but queues nothing and answers no request from its path table.
-/

namespace Reticulum

/-! ### Lengths -/

theorem Packet.length_wireBytes_header1 {p : Packet} (h : p.headerType = .header1) :
    p.wireBytes.length = 19 + p.data.length := by
  have htid : p.transportId.length = 0 := by
    rw [p.transportId_length, if_neg]
    intro h2
    cases h.symm.trans h2
  rw [p.length_wireBytes, htid]

theorem Packet.length_wireBytes_header2 {p : Packet} (h : p.headerType = .header2) :
    p.wireBytes.length = 35 + p.data.length := by
  have htid : p.transportId.length = 16 := p.transportId_length.trans (if_pos h)
  rw [p.length_wireBytes, htid]

/-- A HEADER_1 packet grows when it is re-issued, a HEADER_2 packet does not. -/
theorem length_reissued (id : Identity) (p : Packet) :
    (reissued id p).wireBytes.length =
      p.wireBytes.length + if p.headerType = .header1 then transportIdLen else 0 := by
  obtain ⟨h2, -⟩ := reissued_shape id p
  obtain ⟨-, -, -, hdata⟩ := Packet.hashablePart_eq_iff.mp (reissued_hashablePart id p)
  rw [Packet.length_wireBytes_header2 h2, hdata]
  split
  · rename_i h1
    rw [Packet.length_wireBytes_header1 h1, transportIdLen]
    omega
  · rename_i h1
    rw [Packet.length_wireBytes_header2 (p.header2_of_ne h1), Nat.add_zero]

theorem length_relayOf_le {p q : Packet} {h2 : p.headerType = .header2} {e : PathEntry}
    {o : IfaceId} (h : relayOf p h2 e = some (o, q)) :
    q.wireBytes.length ≤ p.wireBytes.length := by
  obtain ⟨f, -, h⟩ := Option.bind_eq_some_iff.mp h
  rw [Packet.length_wireBytes_header2 h2]
  split at h
  · split at h
    · rename_i hnext
      cases h
      exact (Packet.length_wireBytes_header2 (p := p.withTransportId h2 e.nextHop hnext) h2).le
    · cases h
  split at h
  · cases h
    have h1 : p.asHeader1.headerType = .header1 := headerTypeOf_toHeader1Flags _
    rw [Packet.length_wireBytes_header1 h1]
    show 19 + p.data.length ≤ 35 + p.data.length
    omega
  · cases h

theorem length_maybeClampLrSignalling (p : Packet) (hwMtuBytes : Nat) :
    (maybeClampLrSignalling p.wireBytes hwMtuBytes).length = p.wireBytes.length := by
  rw [maybeClampLrSignalling_wireBytes, Packet.length_wireBytes, Packet.length_wireBytes]
  show 19 + p.transportId.length + (clampSignalling p.data hwMtuBytes).length = _
  rw [length_clampSignalling]

theorem length_of_arriving {wire : Bytes} {p : Packet} (h : arriving wire = some p) :
    p.wireBytes.length = wire.length := by
  obtain ⟨r, rfl, rfl⟩ := exists_of_arriving h
  rw [← bumpHops_wireBytes, length_bumpHops]

section
variable [CryptoLib]

theorem Destination.length_buildAnnounce {d : Destination} {randomPrefix appData wire : Bytes}
    {timestampSecs : Nat} {pathResponse : Bool} (hname : d.nameHash.length = nameHashLen)
    (h : d.buildAnnounce randomPrefix timestampSecs appData [] pathResponse = .ok wire) :
    wire.length = 167 + appData.length := by
  obtain ⟨hrandom, -, hdest, signature, hsig, rfl⟩ := buildAnnounce_eq_ok h
  have hpub : d.identity.publicKey.length = 64 := d.identity.publicKey_length
  have hname : d.nameHash.length = 10 := hname
  have hdest : d.destinationHash.length = 16 := hdest
  simp only [List.length_append, List.length_singleton, List.length_nil, hpub, hname, hdest,
    length_of_ed25519Sign hsig, length_announceRandomHash hrandom timestampSecs]
  omega

end

/-- What an event puts on the air because of a packet that arrived. -/
def Event.relayed : Event → Option Bytes
  | .transmit kind _ wire => if kind = .ownAnnounce then none else some wire
  | .drained _ wire => some wire
  | _ => none

namespace Transport

/-! ### Own announces -/

/-- The call has transmitted nothing but announces of the node itself. -/
def OwnOnly (t : Transport) : Prop := ∀ k i w, .transmit k i w ∈ t.out → k = .ownAnnounce

section
variable {t t' : Transport} {i : IfaceId} {now : Nat}

theorem OwnOnly.append {o : List Event} (h : OwnOnly t) (hout : t'.out = t.out ++ o)
    (ho : ∀ k i w, .transmit k i w ∈ o → k = .ownAnnounce) : OwnOnly t' := by
  intro k i w hw
  rw [hout] at hw
  rcases List.mem_append.mp hw with hw | hw
  · exact h k i w hw
  · exact ho k i w hw

theorem OwnOnly.driveAnnounceRebroadcast (h : OwnOnly t) (now : Nat) :
    OwnOnly (t.driveAnnounceRebroadcast now) := by
  refine List.foldlRecOn (motive := OwnOnly) _ _ h ?_
  intro t ht e he
  refine List.foldlRecOn (motive := OwnOnly) t.interfaces (fun t i => t.queueOn e i) ht ?_
  intro t ht i hi
  exact ht.append rfl (by simp)

theorem OwnOnly.tickInterfaces (h : OwnOnly t) (is : List IfaceId) (now : Nat) :
    OwnOnly (is.foldl (fun t i => t.tickInterface i now) t) := by
  refine List.foldlRecOn (motive := OwnOnly) is (fun t i => t.tickInterface i now) h ?_
  intro t ht i hi
  exact ht.append rfl (by simp)

variable [CryptoLib]

theorem OwnOnly.emitAnnounceForLocal {d a : Bytes} {b : Bool} {only : Option IfaceId}
    (h : OwnOnly t) (he : t.emitAnnounceForLocal d a false only = .ok (b, t')) : OwnOnly t' := by
  cases emitsLocal_of_ok he with
  | silent => exact h
  | sent =>
    refine h.append (out_transmitAll _ _ _ _) ?_
    intro k i w hw
    obtain ⟨j, -, heq⟩ := List.mem_map.mp hw
    cases heq
    rfl

/-- A tick transmits announces of the node itself; the others it hands over and drains. -/
theorem ownOnly_of_tick (h : t.step (.tick now) = .ok t') : OwnOnly t' := by
  obtain ⟨t₁, h₁, h⟩ := bind_eq_ok h
  obtain ⟨⟨sch, t₂⟩, h₂, h₁⟩ := bind_eq_ok h₁
  cases h₁
  cases h
  have hstart : OwnOnly { t with out := [] } := by
    intro k i w hw
    cases hw
  have hsched : OwnOnly t₂ := driveSchedules_inv (I := OwnOnly) h₂
    (hstart.driveAnnounceRebroadcast now) (fun hu he => hu.emitAnnounceForLocal he) fun hu => hu
  exact OwnOnly.tickInterfaces (t := { t₂ with scheduledAnnounces := sch }) hsched t₂.interfaces now

/-- The response for a destination of the node itself is an announce of it without app data. -/
theorem buildAnnounce_of_response {p : Packet} {w : Bytes}
    (h : t.handlePathRequest i p = .ok t') (hl : t.isLocalDestination (p.data.slice 0 16) = true)
    (hw : .transmit .pathResponse i w ∈ t'.out) (hno : .transmit .pathResponse i w ∉ t.out) :
    ∃ k dest randomPrefix unixSeconds, t.localDestinations.lookup k = some dest ∧
      dest.buildAnnounce randomPrefix unixSeconds [] [] true = .ok w := by
  have hquiet : ∀ {u : Transport}, u.out = t.out → Event.transmit .pathResponse i w ∉ u.out := by
    intro u hu hmem
    rw [hu] at hmem
    exact hno hmem
  cases requested_of_handlePathRequest h with
  | short => exact absurd hw hno
  | tagless => exact absurd hw (hquiet rfl)
  | repeated => exact absurd hw (hquiet rfl)
  | fresh _ _ _ h =>
    cases h with
    | noSeed => exact absurd hw (hquiet rfl)
    | fromTable hlocal => exact absurd hl hlocal
    | passOn hlocal => exact absurd hl hlocal
    | disabled hlocal => exact absurd hl hlocal
    | own _ he =>
      cases emitsLocal_of_ok he with
      | silent => exact absurd hw (hquiet rfl)
      | @sent dest seedFn wire hdest _ hwire =>
        rcases List.mem_append.mp hw with hw | hw
        · exact absurd hw (hquiet rfl)
        · cases List.mem_singleton.mp hw
          exact ⟨_, dest, _, _, hdest, hwire⟩

/-! ### What is held -/

def Short (wire : Bytes) : Prop := wire.length ≤ Radio.maxPayload

/-- Everything the node may still send fits. Only a relay answers from its path table. -/
structure Fits (t : Transport) : Prop where
  paths : t.transportEnabled = true → ∀ d e, t.paths.get d = some e → Short e.announceWire
  announceTable : ∀ k e, t.announceTable.entries.lookup k = some e → Short e.announceWire
  queue : ∀ i, ∀ e ∈ (t.iface i).queue, Short e.wire

/-- The destinations of the node itself have name hashes of the fixed length. -/
def Named (t : Transport) : Prop :=
  ∀ k d, t.localDestinations.lookup k = some d → d.nameHash.length = nameHashLen

/-- An announce that is taken in is kept to be sent again: as the answer to path requests, or at
the next tick. -/
def Stores (t : Transport) (va : ValidatedAnnounce) (p : Packet) (now : Nat) : Prop :=
  t.transportEnabled = true ∧
    (replacesPath (t.paths.get va.destinationHash) p.hops va.randomHash now = true ∨
      p.context ≠ contextPathResponse ∧ va.randomHash ∉ t.blobs va.destinationHash)

/-- A relay keeps an announce that outgrows the limit when it is re-issued. -/
def Swells (c : Rec Transport Action) : Prop := ∃ i wire now p va,
  c.act = .inbound i wire now ∧ arriving wire = some p ∧ c.pre.hasSeen p = false ∧
    c.pre.accepts p = some va ∧ p.headerType = .header1 ∧
    Radio.maxPayload < wire.length + transportIdLen ∧ c.pre.Stores va p now

variable {wire : Bytes} {p : Packet} {va : ValidatedAnnounce} {d : Bytes}

omit [CryptoLib] in
theorem keptPath_cases (t : Transport) (va : ValidatedAnnounce) (i : IfaceId) (p : Packet)
    (now : Nat) : (replacesPath (t.paths.get va.destinationHash) p.hops va.randomHash now = true ∧
        t.keptPath va i p now = t.learnedPath va i p now) ∨
      t.paths.get va.destinationHash = some (t.keptPath va i p now) := by
  cases h : t.paths.get va.destinationHash with
  | none => exact .inl ⟨rfl, keptPath_of_none h⟩
  | some e =>
    cases hr : replacesPath (some e) p.hops va.randomHash now with
    | true => exact .inl ⟨rfl, keptPath_of_replaces h hr⟩
    | false => exact .inr (congrArg some (keptPath_of_not_replaces h hr).symm)

/-- What the node keeps of an announce is too long exactly when the call swells. -/
theorem short_reissued_iff (hw : arriving wire = some p) (hs : t.hasSeen p = false)
    (ha : t.accepts p = some va) (hlen : Short wire) (hstores : t.Stores va p now) :
    Short (reissued t.localIdentity p).wireBytes ↔ ¬ Swells ⟨t, .inbound i wire now, t'⟩ := by
  have hgrown := length_reissued t.localIdentity p
  rw [length_of_arriving hw] at hgrown
  rw [Short, hgrown]
  constructor
  · rintro hle ⟨_, _, _, p', va', ⟨⟩, hw', -, -, h1, hlong, -⟩
    cases hw.symm.trans hw'
    rw [if_pos h1] at hle
    omega
  · intro hno
    split
    · rename_i h1
      by_contra hle
      exact hno ⟨i, wire, now, p, va, rfl, hw, hs, ha, h1, by omega, hstores⟩
    · exact hlen

theorem Takes.stores (h : Takes t i wire now p va) : t.Stores va p now :=
  ⟨h.transportEnabled, .inr ⟨h.context, h.fresh⟩⟩

theorem Named.step {a : Action} (h : Named t) (hs : t.step a = .ok t')
    (ha : ∀ dest, a = .registerLocalDestination dest →
      ∃ identity appName, Destination.new identity appName = .ok dest) : Named t' := by
  intro k d hd
  rcases localDestination_of_step hs hd with hold | hnew
  · exact h k d hold
  · obtain ⟨identity, appName, hdest⟩ := ha d hnew
    obtain ⟨destHash, -, hdest⟩ := bind_eq_ok hdest
    cases hdest
    exact Identity.length_nameHash appName

theorem Fits.inbound (hf : Fits t) (h : t.step (.inbound i wire now) = .ok t')
    (hlen : Short wire) (hno : ¬ Swells ⟨t, .inbound i wire now, t'⟩) : Fits t' := by
  constructor
  · intro henabled d e he
    rw [step_transportEnabled h] at henabled
    cases step_entry h d with
    | keep hp _ => exact hf.paths henabled d e (hp ▸ he)
    | @takeIn _ _ _ p va _ hw hs ha _ hp _ =>
      cases hp.symm.trans he
      rw [PathEntry.noted_announceWire]
      rcases t.keptPath_cases va i p now with ⟨hr, heq⟩ | hold
      · rw [heq]
        exact (short_reissued_iff hw hs ha hlen ⟨henabled, .inl hr⟩).mpr hno
      · exact hf.paths henabled _ _ hold
  · intro k e he
    obtain ⟨-, ⟨htable, -⟩ | ⟨p, va, htakes, htable, -⟩⟩ := inbound_queue h
    · rw [htable] at he
      exact hf.announceTable k e he
    · rw [htable, AnnounceTable.put, Dict.lookup_insert_eq] at he
      split at he
      · cases he
        exact (short_reissued_iff htakes.arrives htakes.unseen htakes.accepts hlen
          htakes.stores).mpr hno
      · exact hf.announceTable k e he
  · rw [(step_configures h).iface (by simp)]
    exact hf.queue

/-- A call that swells leaves the node with a packet that does not fit. -/
theorem not_fits_of_swells (h : t.step (.inbound i wire now) = .ok t') (hlen : Short wire)
    (hsw : Swells ⟨t, .inbound i wire now, t'⟩) : ¬ Fits t' := by
  intro hf
  obtain ⟨_, _, _, p, va, ⟨⟩, hw, hs, ha, -, -, hstores⟩ := id hsw
  have hlong : ¬ Short (reissued t.localIdentity p).wireBytes := by
    intro hshort
    exact (short_reissued_iff hw hs ha hlen hstores).mp hshort hsw
  obtain ⟨henabled, hr | ⟨hctx, hfresh⟩⟩ := hstores
  · rcases inbound_path h hw (accepts_checks ha).1 with ⟨hseen | hnone, -⟩ | ⟨-, -, hp⟩
    · cases hs.symm.trans hseen
    · cases ha.symm.trans hnone
    have hkept : t.keptPath va i p now = t.learnedPath va i p now := by
      cases hget : t.paths.get va.destinationHash with
      | none => exact keptPath_of_none hget
      | some e =>
        rw [hget] at hr
        exact keptPath_of_replaces hget hr
    have hshort := hf.paths ((step_transportEnabled h).trans henabled) _ _ hp
    rw [PathEntry.noted_announceWire, hkept] at hshort
    exact hlong hshort
  · have hget := Takes.get ⟨hw, hs, ha, henabled, hctx, hfresh⟩ h
    exact hlong (hf.announceTable _ _ hget)

omit [CryptoLib] in
theorem short_set (h : Short wire) (n : Nat) (x : UInt8) : Short (wire.set n x) := by
  rw [Short, List.length_set]
  exact h

theorem relayed_of_handlePathRequest (hf : Fits t) (hn : Named t) (hp : Short p.wireBytes)
    (h : (seen { t with out := [] } p).handlePathRequest i p = .ok t') :
    ∀ e ∈ t'.out, ∀ w, e.relayed = some w → Short w := by
  obtain ⟨l, n, s, o, hans, heq⟩ := handlePathRequest_answers h
  have hout : t'.out = o := by
    rw [heq]
    rfl
  rw [hout]
  intro e he w hw
  cases hans with
  | silent => cases he
  | own w' hl =>
    cases List.mem_singleton.mp he
    cases hw
    obtain ⟨k, dest, randomPrefix, secs, hdest, hbuild⟩ :=
      buildAnnounce_of_response (w := w) h hl (by rw [hout]; exact he) List.not_mem_nil
    have hlen := Destination.length_buildAnnounce (hn k dest hdest) hbuild
    rw [Short, hlen, Radio.maxPayload]
    decide
  | fromTable entry hget henabled =>
    cases List.mem_singleton.mp he
    cases hw
    exact short_set (hf.paths henabled _ entry hget) _ _
  | passOn _ =>
    obtain ⟨j, -, rfl⟩ := List.mem_map.mp he
    cases hw
    exact hp

/-- What `inbound` sends at once fits. -/
theorem relayed_of_inbound (hf : Fits t) (hn : Named t) (h : t.step (.inbound i wire now) = .ok t')
    (hlen : Short wire) : ∀ e ∈ t'.out, ∀ w, e.relayed = some w → Short w := by
  cases step_did h with
  | apart hlocal _ => cases hlocal
  | dropped _ => simp
  | @took _ _ _ p _ hw hs hh =>
    have hp : Short p.wireBytes := (length_of_arriving hw).trans_le hlen
    have hroute : ∀ {e o q}, t.route p = some (e, o, q) → Short q.wireBytes := by
      intro e o q hr
      obtain ⟨h2, -, -, hrelay⟩ := route_eq_some hr
      exact (length_relayOf_le hrelay).trans hp
    cases hh with
    | ignored _ => simp
    | announce hk ha _ =>
      rw [step_inbound_announce hw hs hk] at h
      obtain ⟨s, -, heq⟩ := handleAnnounce_takeIn (t := seen { t with out := [] } p) i now ha
      cases heq.symm.trans h
      intro e he w hrel
      rcases List.mem_append.mp he with he | he
      · cases he
      rcases of_mem_announceEvents he with ⟨u, rfl, -, -⟩ | rfl
      · cases hrel
      · cases hrel
    | pathRequest hk _ =>
      rw [step_inbound_eq hw hs, dispatch_eq, hk] at h
      exact relayed_of_handlePathRequest hf hn hp h
    | data _ hr =>
      intro e he w hrel
      cases List.mem_singleton.mp he
      cases hrel
      exact hroute hr
    | linkRequest _ hr =>
      intro e he w hrel
      cases List.mem_singleton.mp he
      cases hrel
      rw [Short, length_maybeClampLrSignalling]
      exact hroute hr
    | proof _ _ =>
      intro e he w hrel
      obtain ⟨f, -, rfl⟩ := List.mem_map.mp he
      cases hrel
      exact hp
    | linkProof _ _ =>
      intro e he w hrel
      cases List.mem_singleton.mp he
      cases hrel
      exact hp
    | linkData _ _ =>
      intro e he w hrel
      cases List.mem_singleton.mp he
      cases hrel
      exact hp

/-- A tick keeps what fits, and sends some of it. -/
theorem Fits.tick (hf : Fits t) (h : t.step (.tick now) = .ok t') :
    Fits t' ∧ ∀ e ∈ t'.out, ∀ w, e.relayed = some w → Short w := by
  have htable : ∀ e ∈ t.announceTable.entries.values, Short e.announceWire := by
    intro e he
    obtain ⟨k, hk⟩ := (Dict.mem_values_iff _ _).mp he
    exact hf.announceTable k e hk
  have hqueues : QueuesOnly Short t' := QueuesOnly.tick hf.queue htable h
  have hown := ownOnly_of_tick h
  constructor
  · obtain ⟨sch, s, f, n, o, -, rfl⟩ := tick_frame h
    refine ⟨?_, ?_, hqueues.queue⟩
    · intro henabled d e he
      rw [PathTable.get_evictExpired, Option.filter_eq_some_iff] at he
      exact hf.paths henabled d e he.1
    · intro k e he
      rw [AnnounceTable.popDue, Dict.lookup_retain, Option.filter_eq_some_iff] at he
      exact hf.announceTable k e he.1
  · intro e he w hw
    cases e with
    | transmit k i w' =>
      rw [hown k i w' he] at hw
      cases hw
    | drained i w' =>
      cases hw
      exact hqueues.drained i w he
    | _ => cases hw

theorem Fits.apart {a : Action} (hf : Fits t) (h : t.step a = .ok t') (ha : a.isLocal = true) :
    Fits t' := by
  have hiface : t'.iface = t.iface := by
    refine (step_configures h).iface ?_
    rintro n rfl
    cases ha
  cases step_did h with
  | apart _ hk =>
    constructor
    · rw [hk.paths, hk.transportEnabled]
      exact hf.paths
    · rw [hk.announceTable]
      exact hf.announceTable
    · rw [hiface]
      exact hf.queue
  | _ => cases ha

/-! ### Runs -/

/-- After the call everything the node may still send fits, and so did what it sent because of
packets that arrived. -/
def StaysShort (c : Rec Transport Action) : Prop :=
  Fits c.post ∧ (c.act.isLocal = false → ∀ e ∈ c.post.out, ∀ w, e.relayed = some w → Short w)

theorem staysShort_iff {a : Action} (hf : Fits t) (hn : Named t) (h : t.step a = .ok t')
    (hlen : ∀ i wire now, a = .inbound i wire now → Short wire) :
    StaysShort ⟨t, a, t'⟩ ↔ ¬ Swells ⟨t, a, t'⟩ := by
  cases a with
  | inbound i wire now =>
    have hlen := hlen i wire now rfl
    constructor
    · rintro ⟨hfits, -⟩ hsw
      exact not_fits_of_swells h hlen hsw hfits
    · intro hno
      exact ⟨hf.inbound h hlen hno, fun _ => relayed_of_inbound hf hn h hlen⟩
  | tick now =>
    obtain ⟨hfits, hsent⟩ := hf.tick h
    refine iff_of_true ⟨hfits, fun _ => hsent⟩ ?_
    rintro ⟨_, _, _, _, _, hact, -⟩
    cases hact
  | _ =>
    refine iff_of_true ⟨hf.apart h rfl, ?_⟩ ?_
    · intro hlocal
      cases hlocal
    · rintro ⟨_, _, _, _, _, hact, -⟩
      cases hact

omit [CryptoLib] in
theorem fits_new (id : Identity) (enabled : Bool) (cfg : IfaceId → Interface.Config) :
    Fits (new id enabled cfg) := by
  constructor
  · intro _ d e he
    cases he
  · intro k e he
    cases he
  · intro i e he
    cases he

omit [CryptoLib] in
theorem named_new (id : Identity) (enabled : Bool) (cfg : IfaceId → Interface.Config) :
    Named (new id enabled cfg) := by
  intro k d hd
  cases hd

theorem staysShort_run {s₀ s : Transport} {rs : List (Rec Transport Action)}
    (hrun : Run Steps s₀ rs s) (hf : Fits s₀) (hn : Named s₀)
    (hlen : ∀ c ∈ rs, ∀ i wire now, c.act = .inbound i wire now → Short wire)
    (hown : ∀ c ∈ rs, ∀ dest, c.act = .registerLocalDestination dest →
      ∃ identity appName, Destination.new identity appName = .ok dest) :
    Named s ∧ ((∀ c ∈ rs, ¬ Swells c) → Fits s) ∧
      ((∀ c ∈ rs, StaysShort c) ↔ ∀ c ∈ rs, ¬ Swells c) := by
  induction hrun with
  | nil => exact ⟨hn, fun _ => hf, by simp⟩
  | @snoc rs s s' a hrun hstep ih =>
    have hlast : (⟨s, a, s'⟩ : Rec Transport Action) ∈ rs ++ [⟨s, a, s'⟩] := by simp
    obtain ⟨hnamed, hfits, hiff⟩ := ih (fun c hc => hlen c (List.mem_append_left _ hc))
      fun c hc => hown c (List.mem_append_left _ hc)
    -- as long as nothing has swollen, the last call is judged by `staysShort_iff`
    have hone : (∀ c ∈ rs, ¬ Swells c) →
        (StaysShort ⟨s, a, s'⟩ ↔ ¬ Swells ⟨s, a, s'⟩) :=
      fun hno => staysShort_iff (hfits hno) hnamed hstep (hlen _ hlast)
    simp only [List.forall_mem_append, List.forall_mem_singleton]
    refine ⟨hnamed.step hstep (hown _ hlast), ?_, ?_⟩
    · rintro ⟨hno, hlast⟩
      exact ((hone hno).mpr hlast).1
    · rw [hiff]
      exact and_congr_right hone

/-- A run whose packets fit sends, and keeps to be sent again, only what fits exactly as long as no
announce that it keeps so outgrows the limit. -/
theorem relays_fit {id : Identity} {enabled : Bool} {cfg : IfaceId → Interface.Config}
    {rs : List (Rec Transport Action)} {t : Transport} (hrun : Run Steps (new id enabled cfg) rs t)
    (hlen : ∀ c ∈ rs, ∀ i wire now, c.act = .inbound i wire now →
      wire.length ≤ Radio.maxPayload)
    (hown : ∀ c ∈ rs, ∀ dest, c.act = .registerLocalDestination dest →
      ∃ identity appName, Destination.new identity appName = .ok dest) :
    (∀ c ∈ rs, StaysShort c) ↔ ∀ c ∈ rs, ¬ Swells c :=
  (staysShort_run hrun (fits_new id enabled cfg) (named_new id enabled cfg) hlen hown).2.2

end

open Vectors
attribute [local instance] lib

/-- An announce of Alice's with 326 bytes of app data. -/
def longAnnounce : Bytes :=
  (aliceDestination.buildAnnounce (bytes 5 0) 1 (List.replicate 326 0) [] false).toOption.getD []

set_option maxRecDepth 100000 in
theorem length_longAnnounce : longAnnounce.length = 493 := by decide +kernel

set_option maxRecDepth 100000 in
theorem longAnnounce_relayed :
    ((relay.steps [.registerInterface 0, .inbound 0 longAnnounce 1000]).toOption.bind fun t =>
      (t.step (.tick 1001)).toOption.map fun t' =>
        (t'.out.filterMap Event.relayed).map List.length) = some [509] := by
  decide +kernel

/-- The radio refuses to send on what it has received. -/
theorem longAnnounce_refused : ∃ rs t, Run Steps relay rs t ∧
    (∀ c ∈ rs, ∀ i wire now, c.act = .inbound i wire now → wire.length ≤ Radio.maxPayload) ∧
    ∃ c ∈ rs, c.act = .tick 1001 ∧ ∃ e ∈ c.post.out, ∃ w, e.relayed = some w ∧
      w.length = 509 ∧ ∀ random state₁ state₂,
        Radio.transmit true random state₁ state₂ w = .ok (-1, []) := by
  obtain ⟨t, ht, h⟩ := Option.bind_eq_some_iff.mp longAnnounce_relayed
  obtain ⟨t', ht', hlen⟩ := Option.map_eq_some_iff.mp h
  obtain ⟨rs, hrun, hacts⟩ := run_of_steps (toOption_eq_some ht)
  refine ⟨_, t', hrun.append (Run.single (toOption_eq_some ht')), ?_, ⟨t, .tick 1001, t'⟩,
    by simp, rfl, ?_⟩
  · intro c hc i wire now hact
    rcases List.mem_append.mp hc with hc | hc
    · have hmem : c.act ∈ rs.map Rec.act := List.mem_map_of_mem hc
      rw [hacts, hact] at hmem
      simp only [List.mem_cons, Action.inbound.injEq, reduceCtorEq, List.not_mem_nil, or_false,
        false_or] at hmem
      rw [hmem.2.1, length_longAnnounce]
      decide
    · rw [List.mem_singleton.mp hc] at hact
      cases hact
  · have hmem : 509 ∈ (t'.out.filterMap Event.relayed).map List.length := by
      rw [hlen]
      exact List.mem_singleton_self 509
    obtain ⟨w, hw, hlong⟩ := List.mem_map.mp hmem
    obtain ⟨e, he, hrel⟩ := List.mem_filterMap.mp hw
    refine ⟨e, he, w, hrel, hlong, ?_⟩
    intro random state₁ state₂
    have hgt : w.length > Radio.maxPayload := by
      rw [hlong]
      decide
    rw [Radio.transmit, if_neg (by simp), if_pos hgt]

/-- Alice's short announce and its rebroadcast fit. -/
theorem relays_fit_alice : ∃ rs t, Run Steps relay rs t ∧
    rs.map Rec.act = heardAlice ++ [.tick 1001] ∧ ∀ c ∈ rs, StaysShort c := by
  have hpermitted : ∀ a ∈ heardAlice ++ [.tick 1001], a.Permitted := by
    simp [heardAlice, Action.Permitted]
  obtain ⟨t, hsteps, -⟩ := steps_return (equipped_new bob true fun _ => cfg) hpermitted
  obtain ⟨rs, hrun, hacts⟩ := run_of_steps hsteps
  have hact : ∀ c ∈ rs, c.act ∈ heardAlice ++ [.tick 1001] := by
    intro c hc
    rw [← hacts]
    exact List.mem_map_of_mem hc
  have hwire : ∀ c ∈ rs, ∀ i wire now, c.act = .inbound i wire now → wire.length = 180 := by
    intro c hc i wire now heq
    have hmem := hact c hc
    rw [heq] at hmem
    simp only [heardAlice, List.cons_append, List.nil_append, List.mem_cons, Action.inbound.injEq,
      reduceCtorEq, List.not_mem_nil, or_false, false_or] at hmem
    rw [hmem.2.1]
    decide +kernel
  refine ⟨rs, t, hrun, hacts, (relays_fit hrun ?_ ?_).mpr ?_⟩
  · intro c hc i wire now heq
    rw [hwire c hc i wire now heq]
    decide
  · intro c hc dest heq
    have hmem := hact c hc
    rw [heq] at hmem
    simp [heardAlice] at hmem
  · rintro c hc ⟨i, wire, now, p, va, heq, -, -, -, -, hlong, -⟩
    rw [hwire c hc i wire now heq] at hlong
    exact absurd hlong (by decide)

end Transport
end Reticulum
