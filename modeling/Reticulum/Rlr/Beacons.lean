import Reticulum.Rlr.NodeRuns
import Reticulum.Rns.Announced
import Reticulum.Rns.Transport.Balance
import Reticulum.Rns.Transport.PayloadLimit

/-!
# What a device says of itself

The alive announces and the beacons of a device go out when they are due, each as one frame if the
radio is on, and what a client reads in a beacon is what the device has done since it was started.
-/

namespace Reticulum

namespace Radio

/-- A short wire goes out as one frame, whatever the chip returns. -/
theorem transmit_one (random : Nat) (state₁ state₂ : Int) {p : Bytes} (hshort : p.length ≤ 254) :
    ∃ result header, transmit true random state₁ state₂ p = .ok (result, [header :: p]) := by
  have hfits : ¬p.length > maxPayload := by
    show ¬p.length > 508
    omega
  have hmtu : p.length ≤ singleMtu - 1 := hshort
  rw [transmit, if_neg (by simp), if_neg hfits]
  simp only [if_pos hmtu, txFrame_eq state₁ hshort, bind, Except.bind]
  exact ⟨_, _, rfl⟩

end Radio

namespace Firmware

theorem mem_transmitAll {chip : Nat → ChipCalls} {n : Nat} {wires : List Bytes}
    {frames : List Bytes} (h : transmitAll true chip n wires = .ok frames) {wire : Bytes}
    (hw : wire ∈ wires) (hshort : wire.length ≤ 254) : ∃ header, header :: wire ∈ frames := by
  induction wires generalizing n frames with
  | nil => cases hw
  | cons w wires ih =>
    obtain ⟨⟨result, fs⟩, hsent, h⟩ := bind_eq_ok h
    obtain ⟨more, hmore, h⟩ := bind_eq_ok h
    cases h
    rcases List.mem_cons.mp hw with rfl | hw
    · obtain ⟨r, header, hone⟩ := Radio.transmit_one (chip n).random (chip n).state₁
        (chip n).state₂ hshort
      cases hone.symm.trans hsent
      exact ⟨header, by simp⟩
    · obtain ⟨header, hmem⟩ := ih hmore hw
      exact ⟨header, List.mem_append_right _ hmem⟩

/-! ### The numbers -/

/-- What a beacon shows: the numbers of the node in the widths of its schema. `n` counts, by kind,
the tags of the tx observer; a rebroadcast is tagged when it is handed to an interface, whether that
queues it or not. -/
def report (cfg : Config) (batteryMv : UInt16) (routes inbound linkData : Nat) (n : TxKind → Nat) :
    Telemetry.Report where
  position := if cfg.latitudeUdeg ≠ 0 ∨ cfg.longitudeUdeg ≠ 0 then
    some (degrees cfg.latitudeUdeg, degrees cfg.longitudeUdeg) else none
  batteryMv := batteryMv.toNat
  routeCount := routes % 2 ^ 16
  packetsForwarded := (n .rebroadcast + n .dataForward + n .proofForward + linkData) % 2 ^ 32
  announcesRebroadcast := some (n .rebroadcast % 2 ^ 32)
  dataForwarded := some (n .dataForward % 2 ^ 32)
  inboundPackets := some (inbound % 2 ^ 32)
  name := some (cfg.displayName.1.takeWhile (· ≠ 0))

theorem of_cString {name : DisplayName} {b : Bytes} (h : ConfigProtocol.cString name = .ok b) :
    b = name.1.takeWhile (· ≠ 0) ∧ b.length < 32 := by
  unfold ConfigProtocol.cString at h
  split at h
  · rename_i hzero
    cases h
    refine ⟨rfl, ?_⟩
    by_contra hlong
    have hwhole := (List.takeWhile_prefix (l := name.1) (· ≠ 0)).eq_of_length_le
      (by rw [name.2]; omega)
    have hall : (name.1.takeWhile (· ≠ 0)).all (· ≠ 0) = true := List.all_takeWhile
    rw [hwhole, List.all_eq_true] at hall
    simpa using hall 0 (List.contains_iff_mem.mp hzero)
  · cases h

theorem beaconPayload_shows {cfg : Config} {batteryMv : UInt16} {t : Transport} {payload : Bytes}
    (h : beaconPayload cfg batteryMv t = .ok payload) {n : TxKind → Nat}
    (hrebroadcast : n .rebroadcast = t.stats .announcesRebroadcast)
    (hdata : n .dataForward = t.stats .dataForwardedHeader2 + t.stats .dataForwardedHeader1)
    (hproof : n .proofForward = t.stats .proofForwarded) :
    payload.length ≤ 69 ∧ Telemetry.decode payload = some (.beacon (report cfg batteryMv
      t.paths.size (t.stats .inboundPackets) (t.stats .linkDataForwarded) n)) := by
  obtain ⟨s, hs, h⟩ := bind_eq_ok h
  have henc := ok_of_lift h
  obtain ⟨name, hname, hs⟩ := bind_eq_ok hs
  obtain ⟨rfl, hshort⟩ := of_cString hname
  have hread := Telemetry.decode_encode henc
  have hsName : s.name = cfg.displayName.1.takeWhile (· ≠ 0) := by
    dsimp only at hs
    split at hs <;> cases hs <;> rfl
  have hlen := Telemetry.length_encode_le (hsName ▸ hshort) henc
  rw [hsName] at hlen
  refine ⟨by omega, hread.trans ?_⟩
  have hforwarded : t.stats .announcesRebroadcast + t.stats .dataForwardedHeader1 +
      t.stats .dataForwardedHeader2 + t.stats .proofForwarded + t.stats .linkDataForwarded =
      n .rebroadcast + n .dataForward + n .proofForward + t.stats .linkDataForwarded := by
    omega
  dsimp only at hs
  rw [hforwarded, Nat.add_comm (t.stats .dataForwardedHeader1), ← hdata, ← hrebroadcast] at hs
  split at hs <;> cases hs <;> rename_i hpos <;> simp [report, Telemetry.Snapshot.view, hpos]

variable [CryptoLib]

/-! ### What is sent -/

omit [CryptoLib] in
theorem appData_withPayload (s : ScheduledAnnounce) (payload : Bytes) :
    (s.withFn fun _ => payload).appData = if s.fn.isSome then payload else [] := by
  cases hs : s.fn <;> simp [ScheduledAnnounce.appData, ScheduledAnnounce.withFn, hs]

theorem Moved.announces {telDest : Destination} {first : SetupInput} {d d' : Device}
    {i : LoopInput} {ticked : Transport} {replies : List Bytes} {payload : Bytes} {n : Nat}
    (h : Moved d i d' ticked replies payload) (hw : Wired telDest first d.node n) :
    ∃ wires : List Bytes, ticked.ownSent = wires.map (loraIface, ·) ∧
      List.Forall₂ (fun s wire => ∃ k, telDest.buildAnnounce
          (announceSeedFn first.seedBytes first.seedClock k).randomPrefix
          (announceSeedFn first.seedBytes first.seedClock k).unixSeconds
          (if s.fn.isSome then payload else []) [] false = .ok wire)
        (d.node.scheduledAnnounces.filter (·.nextEmitMs ≤ (Radio.millis i.time).toNat)) wires := by
  have hlookup :
      d.node.localDestinations.lookup (keyOf telDest.destinationHash) = some telDest := by
    rw [hw.localDestinations]
    simp [Dict.lookup_emplace]
  have hdest : ∀ s ∈ d.node.scheduledAnnounces, s.destHash = telDest.destinationHash := by
    obtain ⟨alive, beacon, f, hss⟩ := hw.schedules
    rw [hss]
    simp
  have hready : (d.node.withFn fun _ => payload).CanAnnounce
      (d.node.withFn fun _ => payload).scheduledAnnounces := by
    refine ⟨?_, ?_⟩
    · show d.node.announceSeedFn.isSome = true
      rw [hw.announceSeedFn]
      rfl
    · intro s hs
      obtain ⟨s', hs', rfl⟩ := List.mem_map.mp hs
      show (d.node.localDestinations.lookup (keyOf s'.destHash)).isSome = true
      rw [hdest s' hs', hlookup]
      rfl
  obtain ⟨wires, hall, hown⟩ := Transport.tick_announces h.tick hready
  refine ⟨wires, ?_, ?_⟩
  · rw [hown]
    show (wires.flatMap fun wire => d.node.interfaces.map (·, wire)) = _
    simp only [hw.interfaces, List.map_cons, List.map_nil]
    exact List.map_eq_flatMap.symm
  have hdue : (d.node.withFn fun _ => payload).scheduledAnnounces.filter
        (·.nextEmitMs ≤ (Radio.millis i.time).toNat) =
      (d.node.scheduledAnnounces.filter (·.nextEmitMs ≤ (Radio.millis i.time).toNat)).map
        (·.withFn fun _ => payload) := List.filter_map
  rw [hdue, List.forall₂_map_left_iff] at hall
  have hdest' : ∀ s ∈ d.node.scheduledAnnounces.filter
      (·.nextEmitMs ≤ (Radio.millis i.time).toNat), s.destHash = telDest.destinationHash :=
    fun s hs => hdest s (List.mem_of_mem_filter hs)
  refine ((List.forall₂_and_left _ _).mpr ⟨hdest', hall⟩).imp ?_
  rintro s wire ⟨hs, dest, seedFn, k, hfound, hseed, hwire⟩
  have hfound : d.node.localDestinations.lookup (keyOf s.destHash) = some dest := hfound
  have hseed : d.node.announceSeedFn = some seedFn := hseed
  rw [hs, hlookup] at hfound
  rw [hw.announceSeedFn] at hseed
  cases hfound
  cases hseed
  rw [appData_withPayload] at hwire
  exact ⟨k, hwire⟩

/-! ### What is counted -/

theorem interfaces_of_run {t₀ t : Transport} {trs : List (Rec Transport Action)}
    (hrun : Run Transport.Steps t₀ trs t) (h₀ : t₀.interfaces = [loraIface])
    (hremote : ∀ r ∈ trs, r.act.isLocal = false) : ∀ r ∈ trs, r.pre.interfaces = [loraIface] := by
  intro r hr
  obtain ⟨before, after, rfl⟩ := List.append_of_mem hr
  obtain ⟨hbefore, -, -⟩ := hrun.split_at
  exact hbefore.inv_of (I := fun t => t.interfaces = [loraIface]) h₀
    (fun r hr => hremote r (List.mem_append_left _ hr))
    fun t a t' ht hstep ha => (wiring_of_step ha hstep).1.trans ht

omit [CryptoLib] in
theorem isLocal_of_mem_calls {r : Rec Device Act} {a : Action} (h : a ∈ calls r) :
    a.isLocal = false := by
  unfold calls at h
  split at h
  · rcases List.mem_cons.mp h with rfl | h
    · rfl
    · obtain ⟨wire, -, rfl⟩ := List.mem_map.mp h
      rfl
  · cases h

/-- What is counted in a tick after the rebroadcasts is the own announces. -/
theorem stats_of_tick {t t' : Transport} {fn : Nat → Bytes} {now : Nat}
    (h : (t.withFn fn).step (.tick now) = .ok t') {c : Counter}
    (hc : c ≠ .scheduledAnnouncesEmitted) :
    (t.driveAnnounceRebroadcast now).stats c = t'.stats c := by
  have hqueued := (Transport.queueDue_posts (t.announceTable.popDue now).1
    { t with announceTable := (t.announceTable.popDue now).2 }).stats c
  obtain ⟨cs, ks, hentry, hposts⟩ := Transport.step_entered h
  cases hentry with
  | ticked m =>
    have hcount : (List.replicate m Counter.scheduledAnnouncesEmitted).count c = 0 :=
      List.count_eq_zero.mpr fun hmem => hc (List.eq_of_mem_replicate hmem)
    refine Eq.trans hqueued (Eq.trans ?_ (hposts.stats c).symm)
    rw [List.count_append, hcount]
    rfl
  | apart ha _ => cases ha

/-- The callback reads the node after the rebroadcasts, and shows what the node counts when the tick
is over. -/
theorem Moved.shows {d d' : Device} {i : LoopInput} {ticked : Transport} {replies : List Bytes}
    {payload : Bytes} (h : Moved d i d' ticked replies payload)
    (hdue : beaconDue d.node (Radio.millis i.time).toNat = true) {n : TxKind → Nat}
    (hrebroadcast : n .rebroadcast = ticked.stats .announcesRebroadcast)
    (hdata : n .dataForward =
      ticked.stats .dataForwardedHeader2 + ticked.stats .dataForwardedHeader1)
    (hproof : n .proofForward = ticked.stats .proofForwarded) :
    payload.length ≤ 69 ∧ Telemetry.decode payload = some (.beacon (report d.cfg i.batteryMv
      d.node.paths.size (ticked.stats .inboundPackets) (ticked.stats .linkDataForwarded) n)) := by
  have hpayload := h.callback
  rw [payloadAt, if_pos hdue] at hpayload
  have hstats {c : Counter} (hc : c ≠ .scheduledAnnouncesEmitted) := stats_of_tick h.tick hc
  obtain ⟨s, f, m, o, -, hidle⟩ :=
    d.node.driveAnnounceRebroadcast_idles (Radio.millis i.time).toNat
  have hpaths : (d.node.driveAnnounceRebroadcast (Radio.millis i.time).toNat).paths =
      d.node.paths := by rw [hidle]
  have hshows := beaconPayload_shows hpayload (n := n)
    (hrebroadcast.trans (hstats (by decide)).symm)
    (hdata.trans (congrArg₂ (· + ·) (hstats (by decide)) (hstats (by decide))).symm)
    (hproof.trans (hstats (by decide)).symm)
  rw [hpaths, hstats (by decide), hstats (by decide)] at hshows
  exact hshows

/-- A client that validates `wire` has this from the owner of `dest`. -/
def Tells (dest : Destination) (wire : Bytes) (received : Telemetry.Received) : Prop :=
  ∃ p va, p.wireBytes = wire ∧ Identity.validateAnnounce p = some va ∧
    va.destinationHash = dest.destinationHash ∧ va.publicKey = dest.identity.publicKey ∧
    Telemetry.decode va.appData = some received

theorem tells_of_buildAnnounce (hv : VerifiesOwn) {dest : Destination} (hd : dest.Genuine)
    {randomPrefix appData wire : Bytes} {unixSeconds : Nat}
    (h : dest.buildAnnounce randomPrefix unixSeconds appData [] false = .ok wire)
    {received : Telemetry.Received} (hread : Telemetry.decode appData = some received) :
    Tells dest wire received := by
  obtain ⟨p, hwire, -, -, -, -, -, hvalid⟩ :=
    Destination.validateAnnounce_of_buildAnnounce hv hd h
  exact ⟨p, _, hwire, hvalid, rfl, rfl, hread⟩

theorem mem_frames_of_ownSent {fw : FwVersion} {d d' : Device} {i : LoopInput} {out : LoopOutput}
    {ticked : Transport} {replies : List Bytes} (h : Looped fw d i out d' ticked replies)
    (hon : d.radioOnline = true) {wire : Bytes} (hown : (loraIface, wire) ∈ ticked.ownSent)
    (hshort : wire.length ≤ 254) : ∃ header, header :: wire ∈ out.frames := by
  have hframes := h.frames
  rw [hon] at hframes
  refine mem_transmitAll hframes (List.mem_append_left _ ?_) hshort
  obtain ⟨e, he, hsent⟩ := List.mem_filterMap.mp hown
  refine List.mem_map.mpr ⟨(loraIface, wire), List.mem_filterMap.mpr ⟨e, he, ?_⟩, rfl⟩
  unfold Event.own at hsent
  split at hsent
  · exact hsent
  · cases hsent

/-- What the node has counted when the tick of a loop is over, as its runs count it. -/
theorem stats_eq_counts {id : Identity} {trs : List (Rec Transport Action)} {t : Transport}
    (hrun : Run Transport.Steps (Transport.new id true fun _ => ifaceCfg) trs t)
    (hone : ∀ r ∈ trs, ∀ now, r.act = .tick now → r.pre.interfaces.length = 1) :
    Transport.tags .rebroadcast trs = t.stats .announcesRebroadcast ∧
    Transport.tags .dataForward trs =
      t.stats .dataForwardedHeader2 + t.stats .dataForwardedHeader1 ∧
    Transport.tags .proofForward trs = t.stats .proofForwarded ∧
    t.stats .linkDataForwarded = trs.countP Transport.relaysLinkData ∧
    t.stats .inboundPackets = trs.countP (fun r => r.act.isInbound) := by
  have hlinkData := Transport.linkData_counted hrun
  have hbalanced := Transport.balanced_of_run hrun
  have hinbound := Transport.inbound_counted hrun
  have hrebroadcast := Transport.rebroadcast_tags hrun hone
  have hzero (c : Counter) : (Transport.new id true fun _ => ifaceCfg).stats c = 0 := rfl
  rw [hzero, Nat.zero_add] at hinbound hlinkData
  rw [hzero, Nat.mul_one, Nat.zero_mul, Nat.zero_add] at hrebroadcast
  exact ⟨hrebroadcast.symm, hbalanced.dataTags, hbalanced.proofTags, hlinkData, hinbound⟩

omit [CryptoLib] in
theorem not_tick_of_bringUp {telDest : Destination} {i : SetupInput} {fn : Nat → Bytes}
    {trs : List (Rec Transport Action)}
    (hacts : trs.map Rec.act = (bringUp telDest i).map (·.withFn fn)) :
    ∀ r ∈ trs, ∀ now, r.act ≠ .tick now := by
  intro r hr now hnow
  have hact := List.mem_map_of_mem (f := Rec.act) hr
  rw [hacts, hnow] at hact
  simp [bringUp, Action.withFn] at hact

/-- The run of the node from its construction to the end of the tick in a loop. -/
theorem run_to_tick {fw : FwVersion} {flash : Fs} {first : SetupInput} {telDest : Destination}
    {d₀ d d' : Device} {rs : List (Rec Device Act)} {i : LoopInput} {ticked : Transport}
    {replies : List Bytes} {payload : Bytes} (hset : SetUp flash first d₀ telDest)
    (hrun : Run (Lives fw) d₀ rs d) (hruns : ∀ r ∈ rs, r.act.Runs)
    (hmoved : Moved d i d' ticked replies payload) :
    ∃ fn trs n, Wired telDest first d.node n ∧
      Run Transport.Steps (Transport.new d₀.node.localIdentity true fun _ => ifaceCfg) trs
        (ticked.withFn fn) ∧
      trs.map Rec.act = (bringUp telDest first).map (·.withFn fn) ++ rs.flatMap calls ++
        [.tick (Radio.millis i.time).toNat] ∧
      ∀ r ∈ trs, ∀ now, r.act = .tick now → r.pre.interfaces.length = 1 := by
  obtain ⟨payloads, hwired, hfollows⟩ := follows_run hrun hruns hset.wired
  obtain ⟨fn, hfn⟩ := exists_returns (payloads ++ [payload])
  obtain ⟨trs₁, hrun₁, hacts₁⟩ := Transport.run_of_steps (hset.follows fn)
  obtain ⟨trs₂, hrun₂, hacts₂⟩ := run_of_renders hrun (hfollows fn hfn.of_append)
  have htick := hmoved.tick_follows hwired fun _ => hfn.last
  refine ⟨fn, _, _, hwired, (hrun₁.append hrun₂).snoc htick, ?_, ?_⟩
  · rw [List.map_append, List.map_append, hacts₁, hacts₂]
    rfl
  have hremote : ∀ r ∈ trs₂, r.act.isLocal = false := by
    intro r hr
    have hact := List.mem_map_of_mem (f := Rec.act) hr
    rw [hacts₂] at hact
    obtain ⟨r', -, hact⟩ := List.mem_flatMap.mp hact
    exact isLocal_of_mem_calls hact
  intro r hr now hnow
  rcases List.mem_append.mp hr with hr | hr
  · rcases List.mem_append.mp hr with hr | hr
    · exact absurd hnow (not_tick_of_bringUp hacts₁ r hr now)
    · rw [interfaces_of_run hrun₂ hset.wired.interfaces hremote r hr]
      rfl
  · cases List.mem_singleton.mp hr
    exact congrArg List.length hwired.interfaces

/-- In every loop, the announces that the device sends of itself are one for each schedule that is
due, in order, and each goes out as one frame if the radio is on. Whoever validates it finds that
the device is alive, or a report: its place and name as they are configured, its battery, the routes
it has, and what it has heard and passed on since it was started. -/
theorem beacons_true (hv : VerifiesOwn) {fw : FwVersion} {flash : Fs} {first : SetupInput}
    {d₀ d d' : Device} {rs : List (Rec Device Act)} {i : LoopInput} {out : LoopOutput}
    (hfirst : setup flash first = .ok d₀) (hrun : Run (Lives fw) d₀ rs d)
    (hruns : ∀ r ∈ rs, r.act.Runs) (hloop : loop fw d i = .ok (out, d')) :
    ∃ telDest fn trs t wires,
      Destination.new d₀.node.localIdentity telemetryDestName = .ok telDest ∧
      Run Transport.Steps (Transport.new d₀.node.localIdentity true fun _ => ifaceCfg) trs t ∧
      trs.map Rec.act = (bringUp telDest first).map (·.withFn fn) ++ rs.flatMap calls ++
        [.tick (Radio.millis i.time).toNat] ∧
      t.ownSent = wires.map (loraIface, ·) ∧
      (d.radioOnline = true → ∀ wire ∈ wires, ∃ header, header :: wire ∈ out.frames) ∧
      List.Forall₂ (fun s wire => Tells telDest wire (if s.fn.isSome then
          .beacon (report d.cfg i.batteryMv d.node.paths.size
            ((rs.flatMap calls).countP Action.isInbound) (trs.countP Transport.relaysLinkData)
            fun k => Transport.tags k trs)
        else .alive))
        (d.node.scheduledAnnounces.filter (·.nextEmitMs ≤ (Radio.millis i.time).toNat)) wires := by
  obtain ⟨telDest, hset⟩ := setUp_of_setup hfirst
  obtain ⟨ticked, replies, hlooped⟩ := looped_of_loop hloop
  obtain ⟨payload, hmoved⟩ := hlooped.moved
  obtain ⟨fn, trs, n, hwired, htrs, hacts, hone⟩ := run_to_tick hset hrun hruns hmoved
  obtain ⟨hrebroadcast, hdata, hproof, hlinkData, hinbound⟩ := stats_eq_counts htrs hone
  obtain ⟨wires, hown, hall⟩ := hmoved.announces hwired
  have hheard : ticked.stats .inboundPackets = (rs.flatMap calls).countP Action.isInbound := by
    have hcount := congrArg (List.countP Action.isInbound) hacts
    rw [List.countP_map, List.countP_append, List.countP_append] at hcount
    refine Eq.trans hinbound (Eq.trans hcount ?_)
    simp [bringUp, Action.withFn, Action.isInbound]
  have hgenuine : telDest.Genuine :=
    Destination.genuine_of_new (Identity.genuine_of_fromPrivateBytes hset.identity) hset.destination
  have hshown : ∀ s ∈ d.node.scheduledAnnounces.filter
      (·.nextEmitMs ≤ (Radio.millis i.time).toNat),
      (if s.fn.isSome then payload else []).length ≤ 69 ∧
      Telemetry.decode (if s.fn.isSome then payload else []) = some (if s.fn.isSome then
        .beacon (report d.cfg i.batteryMv d.node.paths.size
          ((rs.flatMap calls).countP Action.isInbound) (trs.countP Transport.relaysLinkData)
          fun k => Transport.tags k trs)
        else .alive) := by
    intro s hs
    obtain ⟨hs, hnow⟩ := List.mem_filter.mp hs
    split
    · rename_i hsome
      have hdue : beaconDue d.node (Radio.millis i.time).toNat = true :=
        List.any_eq_true.mpr ⟨s, hs, by rw [hsome, hnow]; rfl⟩
      rw [← hheard, ← hlinkData]
      exact hmoved.shows hdue (n := fun k => Transport.tags k trs) hrebroadcast hdata hproof
    · exact ⟨Nat.zero_le _, rfl⟩
  have hboth := (List.forall₂_and_left _ _).mpr ⟨hshown, hall⟩
  refine ⟨telDest, fn, trs, _, wires, hset.destination, htrs, hacts, hown, ?_, ?_⟩
  · intro hon wire hwire
    have hshort : List.Forall₂ (fun wire (_ : ScheduledAnnounce) => wire.length ≤ 254 ∧ True) wires
        (d.node.scheduledAnnounces.filter (·.nextEmitMs ≤ (Radio.millis i.time).toNat)) := by
      refine (hboth.imp ?_).flip
      rintro s wire ⟨⟨hlen, -⟩, k, hbuild⟩
      have hwhole := Destination.length_buildAnnounce hgenuine.nameHash_length hbuild
      exact ⟨by omega, trivial⟩
    refine mem_frames_of_ownSent hlooped hon ?_
      (((List.forall₂_and_left _ _).mp hshort).1 wire hwire)
    rw [hown]
    exact List.mem_map_of_mem hwire
  · refine hboth.imp ?_
    rintro s wire ⟨⟨-, hread⟩, k, hbuild⟩
    exact tells_of_buildAnnounce hv hgenuine hbuild hread

end Firmware

namespace Firmware
open Vectors
attribute [local instance] lib

/-- The first loop of Bob's device, in which both schedules are due. -/
theorem beacons_true_bob : ∃ d₀ out d' dest alive beacon r, setup empty bobStarts = .ok d₀ ∧
    loop fwTest d₀ (busy 10 (0x50 :: aliceAnnounce)) = .ok (out, d') ∧
    Tells dest alive .alive ∧ Tells dest beacon (.beacon r) ∧ r.batteryMv = 3948 ∧
    r.inboundPackets = some 0 ∧ ∃ header, header :: beacon ∈ out.frames := by
  obtain ⟨d₀, hd₀, h₀⟩ := setup_returns derivesKeys_lib stored_empty (i := bobStarts) ⟨rfl, rfl⟩
  obtain ⟨out, d', hloop, -⟩ := loop_returns (show fwTest.length < 256 by decide) h₀
    (i := busy 10 (0x50 :: aliceAnnounce)) (fun calls hcalls => by cases hcalls)
  have hv : VerifiesOwn := fun _ _ => decide_eq_true rfl
  obtain ⟨dest, fn, trs, t, wires, -, -, -, -, hframes, hall⟩ :=
    beacons_true hv hd₀ .nil (by simp) hloop
  obtain ⟨telDest, hset⟩ := setUp_of_setup hd₀
  have hdue : d₀.node.scheduledAnnounces.filter (·.nextEmitMs ≤ 10) =
      [⟨telDest.destinationHash, telemetryAlivePeriodMs, 0, none, 0⟩,
        ⟨telDest.destinationHash, telemetryBeaconPeriodMs, 0, some fun _ => [], 0⟩] := by
    rw [← Except.ok.inj hset.node]
    rfl
  have hon : d₀.radioOnline = true := hset.radioOnline
  rw [show (Radio.millis (busy 10 (0x50 :: aliceAnnounce)).time).toNat = 10 from rfl, hdue] at hall
  cases hall with
  | @cons _ alive _ _ halive hrest =>
    cases hrest with
    | @cons _ beacon _ _ hbeacon hrest =>
      cases hrest
      exact ⟨d₀, out, d', dest, alive, beacon, _, hd₀, hloop, halive, hbeacon, rfl, rfl,
        hframes hon beacon (by simp)⟩

end Firmware
end Reticulum
