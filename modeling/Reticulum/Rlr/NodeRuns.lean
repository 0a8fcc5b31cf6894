import Reticulum.Rlr.Life

/-!
# The node of a running device

The beacon's callback reads the node that calls it. What it will return is not known beforehand, but
a run settles it: between two starts the node of a device does what a node does whose callback
returns that from the outset. So what holds of every run of a node holds of the device's.
-/

namespace Reticulum
namespace Firmware

/-- A step other than a start. -/
def Act.Runs : Act → Prop
  | .powerOn _ => False
  | _ => True

/-- What a step calls of the node. -/
def calls (r : Rec Device Act) : List Action :=
  match r.act with
  | .loop i =>
    .tick (Radio.millis i.time).toNat :: (heard r.pre.reassembly i.rx).toList.map fun wire =>
      .inbound loraIface wire (Radio.millis i.time).toNat
  | _ => []

variable [CryptoLib]

/-- The node is as `setup` has wired it, after `n` calls of the beacon's callback. -/
structure Wired (telDest : Destination) (i : SetupInput) (t : Transport) (n : Nat) : Prop where
  interfaces : t.interfaces = [loraIface]
  localDestinations :
    t.localDestinations = Dict.emplace (keyOf telDest.destinationHash) telDest ∅
  announceSeedFn : t.announceSeedFn = some (announceSeedFn i.seedBytes i.seedClock)
  schedules : ∃ alive beacon f, t.scheduledAnnounces =
    [⟨telDest.destinationHash, telemetryAlivePeriodMs, alive, none, 0⟩,
      ⟨telDest.destinationHash, telemetryBeaconPeriodMs, beacon, some f, n⟩]

theorem SetUp.wired {flash : Fs} {i : SetupInput} {d : Device} {telDest : Destination}
    (h : SetUp flash i d telDest) : Wired telDest i d.node 0 := by
  have hnode := Except.ok.inj h.node
  rw [← hnode]
  exact ⟨rfl, rfl, rfl, 0, 0, _, rfl⟩

/-- A tick and a packet leave the wiring as it is. -/
theorem wiring_of_step {t t' : Transport} {a : Action} (ha : a.isLocal = false)
    (h : t.step a = .ok t') : t'.interfaces = t.interfaces ∧
      t'.localDestinations = t.localDestinations ∧ t'.announceSeedFn = t.announceSeedFn := by
  cases Transport.step_did h with
  | apart hlocal _ => cases ha.symm.trans hlocal
  | dropped _ => exact ⟨rfl, rfl, rfl⟩
  | took _ _ hh => cases hh <;> exact ⟨rfl, rfl, rfl⟩
  | ticked _ => exact ⟨rfl, rfl, rfl⟩

namespace Wired
variable {telDest : Destination} {i : SetupInput} {t t' : Transport} {n : Nat}

omit [CryptoLib] in
theorem withFn (h : Wired telDest i t n) (fn : Nat → Bytes) :
    Wired telDest i (t.withFn fn) n := by
  obtain ⟨alive, beacon, f, hss⟩ := h.schedules
  refine ⟨h.interfaces, h.localDestinations, h.announceSeedFn, alive, beacon, fn, ?_⟩
  simp [Transport.withFn, hss, ScheduledAnnounce.withFn]

theorem remote (h : Wired telDest i t n) {a : Action} (ha : a.isLocal = false)
    (hstep : t.step a = .ok t') : t'.interfaces = [loraIface] ∧
      t'.localDestinations = Dict.emplace (keyOf telDest.destinationHash) telDest ∅ ∧
      t'.announceSeedFn = some (Firmware.announceSeedFn i.seedBytes i.seedClock) := by
  obtain ⟨hifaces, hlocal, hseed⟩ := wiring_of_step ha hstep
  exact ⟨hifaces.trans h.interfaces, hlocal.trans h.localDestinations,
    hseed.trans h.announceSeedFn⟩

theorem inbound (h : Wired telDest i t n) {j : IfaceId} {wire : Bytes} {now : Nat}
    (hstep : t.step (.inbound j wire now) = .ok t') : Wired telDest i t' n := by
  have hss : t'.scheduledAnnounces = t.scheduledAnnounces :=
    Transport.inbound_scheduledAnnounces (t := { t with out := [] }) hstep
  obtain ⟨hifaces, hlocal, hseed⟩ := h.remote rfl hstep
  exact ⟨hifaces, hlocal, hseed, hss ▸ h.schedules⟩

/-- The callback is called in a tick where the beacon is due, and in no other. -/
theorem tick (h : Wired telDest i t n) {now : Nat} (hstep : t.step (.tick now) = .ok t') :
    Wired telDest i t' (if beaconDue t now then n + 1 else n) := by
  have hss : t'.scheduledAnnounces = t.scheduledAnnounces.map (·.after now) :=
    Transport.tick_scheduledAnnounces (t := { t with out := [] }) hstep
  obtain ⟨hifaces, hlocal, hseed⟩ := h.remote rfl hstep
  refine ⟨hifaces, hlocal, hseed, ?_⟩
  obtain ⟨alive, beacon, f, hold⟩ := h.schedules
  have hdue : beaconDue t now = decide (beacon ≤ now) := by simp [beaconDue, hold]
  rw [hss, hold, hdue]
  simp only [List.map_cons, List.map_nil, ScheduledAnnounce.after, ScheduledAnnounce.fired]
  by_cases hb : now < beacon <;> by_cases ha : now < alive <;> simp [hb, ha]

end Wired

/-! ### Following the device -/

/-- `fn` returns these results first. -/
def Returns (fn : Nat → Bytes) (payloads : List Bytes) : Prop :=
  ∀ k payload, payloads[k]? = some payload → fn k = payload

omit [CryptoLib] in
theorem Returns.of_append {fn : Nat → Bytes} {payloads ps : List Bytes}
    (h : Returns fn (payloads ++ ps)) : Returns fn payloads := by
  intro k payload hk
  have hlt : k < payloads.length := (List.getElem?_eq_some_iff.mp hk).1
  exact h k payload ((List.getElem?_append_left hlt).trans hk)

omit [CryptoLib] in
theorem Returns.last {fn : Nat → Bytes} {payloads : List Bytes} {payload : Bytes}
    (h : Returns fn (payloads ++ [payload])) : fn payloads.length = payload :=
  h _ _ (by simp)

omit [CryptoLib] in
theorem exists_returns (payloads : List Bytes) : ∃ fn, Returns fn payloads := by
  refine ⟨fun k => payloads[k]?.getD [], ?_⟩
  intro k payload hk
  simp [hk]

/-- The tick of a loop, with the results known beforehand. -/
theorem Moved.tick_follows {telDest : Destination} {first : SetupInput} {d d' : Device}
    {i : LoopInput} {ticked : Transport} {replies : List Bytes} {payload : Bytes} {n : Nat}
    (h : Moved d i d' ticked replies payload) (hw : Wired telDest first d.node n)
    {fn : Nat → Bytes}
    (hfn : beaconDue d.node (Radio.millis i.time).toNat = true → fn n = payload) :
    (d.node.withFn fn).step (.tick (Radio.millis i.time).toNat) = .ok (ticked.withFn fn) := by
  refine Transport.step_tick_withFn h.tick ?_
  intro s hs hsome hnow
  obtain ⟨alive, beacon, f, hss⟩ := hw.schedules
  rw [hss] at hs
  rcases List.mem_cons.mp hs with rfl | hs
  · cases hsome
  · cases List.mem_singleton.mp hs
    refine hfn ?_
    simp only [beaconDue, hss, List.any_eq_true]
    exact ⟨_, List.mem_cons_of_mem _ (List.mem_singleton_self _), by simpa using hnow⟩

/-- One loop, and the node with the results known beforehand. -/
theorem Moved.follows {telDest : Destination} {first : SetupInput} {d d' : Device} {i : LoopInput}
    {ticked : Transport} {replies : List Bytes} {payload : Bytes} {n : Nat}
    (h : Moved d i d' ticked replies payload) (hw : Wired telDest first d.node n) :
    Wired telDest first d'.node
      (if beaconDue d.node (Radio.millis i.time).toNat then n + 1 else n) ∧
    ∀ fn : Nat → Bytes, (beaconDue d.node (Radio.millis i.time).toNat = true → fn n = payload) →
      ∃ trs, Run Transport.Steps (d.node.withFn fn) trs (d'.node.withFn fn) ∧
        trs.map Rec.act = calls ⟨d, .loop i, d'⟩ ∧
        (trs.flatMap fun tr => tr.post.transmissions.map Prod.snd) =
          ticked.transmissions.map Prod.snd ++ replies := by
  have hticked := (hw.withFn fun _ => payload).tick h.tick
  have hdue : beaconDue (d.node.withFn fun _ => payload) (Radio.millis i.time).toNat =
      beaconDue d.node (Radio.millis i.time).toNat := by
    simp [beaconDue, Transport.withFn, ScheduledAnnounce.withFn, List.any_map, Function.comp_def]
  rw [hdue] at hticked
  rcases h.inbound with ⟨hheard, hnode, hreplies⟩ | ⟨wire, hheard, hinbound, hreplies⟩
  · rw [hnode]
    refine ⟨hticked, fun fn hfn => ⟨_, .single (h.tick_follows hw hfn), ?_, ?_⟩⟩
    · simp [calls, hheard]
    · simp [hreplies]
  · refine ⟨hticked.inbound hinbound, fun fn hfn => ⟨_, (Run.single (h.tick_follows hw hfn)).snoc
      (Transport.step_withFn fn hinbound (by simp)), ?_, ?_⟩⟩
    · simp [calls, hheard, Action.withFn]
    · simp [hreplies]

/-- What the node does in a step of the device, when its callback returns `fn`. -/
structure Renders (fw : FwVersion) (fn : Nat → Bytes) (r : Rec Device Act)
    (trs : List (Rec Transport Action)) : Prop where
  run : Run Transport.Steps (r.pre.node.withFn fn) trs (r.post.node.withFn fn)
  calls : trs.map Rec.act = calls r
  frames : ∀ i out, r.act = .loop i → loop fw r.pre i = .ok (out, r.post) →
    transmitAll r.pre.radioOnline i.chip 0
      (trs.flatMap fun tr => tr.post.transmissions.map Prod.snd) = .ok out.frames

/-- One step of the device, and the node with the results known beforehand. -/
theorem follows_step {fw : FwVersion} {telDest : Destination} {first : SetupInput} {d d' : Device}
    {a : Act} {payloads : List Bytes} (ha : a.Runs) (h : act fw d a = .ok d')
    (hw : Wired telDest first d.node payloads.length) :
    ∃ ps, Wired telDest first d'.node (payloads ++ ps).length ∧
      ∀ fn, Returns fn (payloads ++ ps) → ∃ trs, Renders fw fn ⟨d, a, d'⟩ trs := by
  cases a with
  | powerOn i => cases ha
  | loop i =>
    obtain ⟨⟨out, d₁⟩, hloop, h⟩ := map_eq_ok h
    cases h
    obtain ⟨ticked, replies, hlooped⟩ := looped_of_loop hloop
    obtain ⟨payload, hmoved⟩ := hlooped.moved
    obtain ⟨hwired, hfollows⟩ := hmoved.follows hw
    have hrenders (fn : Nat → Bytes)
        (hfn : beaconDue d.node (Radio.millis i.time).toNat = true → fn payloads.length = payload) :
        ∃ trs, Renders fw fn ⟨d, .loop i, d₁⟩ trs := by
      obtain ⟨trs, hrun, hcalls, hsent⟩ := hfollows fn hfn
      refine ⟨trs, hrun, hcalls, ?_⟩
      intro i' out' hi hloop'
      cases hi
      cases hloop.symm.trans hloop'
      rw [hsent]
      exact hlooped.frames
    cases hdue : beaconDue d.node (Radio.millis i.time).toNat with
    | true =>
      rw [if_pos hdue] at hwired
      refine ⟨[payload], by simpa using hwired, ?_⟩
      intro fn hfn
      exact hrenders fn fun _ => hfn.last
    | false =>
      rw [if_neg (by simp [hdue])] at hwired
      refine ⟨[], by simpa using hwired, ?_⟩
      intro fn hfn
      exact hrenders fn fun h => by simp [hdue] at h
  | requestWrite request saves =>
    obtain ⟨⟨out, d₁⟩, hwrite, h⟩ := map_eq_ok h
    cases h
    obtain ⟨bytes, -, hd⟩ := map_eq_ok hwrite
    cases hd
    refine ⟨[], by simpa using hw, ?_⟩
    intro fn _
    refine ⟨[], .nil, rfl, ?_⟩
    intro i out hi
    cases hi

theorem follows_run {fw : FwVersion} {telDest : Destination} {first : SetupInput} {d₀ d : Device}
    {rs : List (Rec Device Act)} (hrun : Run (Lives fw) d₀ rs d) (hruns : ∀ r ∈ rs, r.act.Runs)
    (hw : Wired telDest first d₀.node 0) :
    ∃ payloads, Wired telDest first d.node payloads.length ∧
      ∀ fn, Returns fn payloads → ∀ r ∈ rs, ∃ trs, Renders fw fn r trs := by
  induction hrun with
  | nil => exact ⟨[], hw, fun _ _ r hr => absurd hr List.not_mem_nil⟩
  | snoc hrun hstep ih =>
    obtain ⟨payloads, hwired, hbefore⟩ := ih fun r hr => hruns r (List.mem_append_left _ hr)
    have hact := hruns _ (List.mem_append_right _ (List.mem_singleton_self _))
    obtain ⟨ps, hwired', hlast⟩ := follows_step hact hstep hwired
    refine ⟨payloads ++ ps, hwired', ?_⟩
    intro fn hfn r hr
    rcases List.mem_append.mp hr with hr | hr
    · exact hbefore fn hfn.of_append r hr
    · cases List.mem_singleton.mp hr
      exact hlast fn hfn

/-- The node's own run, over a run of the device. -/
theorem run_of_renders {fw : FwVersion} {fn : Nat → Bytes} {d₀ d : Device}
    {rs : List (Rec Device Act)} (hrun : Run (Lives fw) d₀ rs d)
    (h : ∀ r ∈ rs, ∃ trs, Renders fw fn r trs) :
    ∃ trs, Run Transport.Steps (d₀.node.withFn fn) trs (d.node.withFn fn) ∧
      trs.map Rec.act = rs.flatMap calls := by
  induction hrun with
  | nil => exact ⟨[], .nil, rfl⟩
  | snoc hrun hstep ih =>
    obtain ⟨trs, hbefore, hacts⟩ := ih fun r hr => h r (List.mem_append_left _ hr)
    obtain ⟨trs', hlast⟩ := h _ (List.mem_append_right _ (List.mem_singleton_self _))
    refine ⟨trs ++ trs', hbefore.append hlast.run, ?_⟩
    simp [hacts, hlast.calls]

/-- The calls of `setup`, with the results known beforehand. -/
theorem SetUp.follows {flash : Fs} {i : SetupInput} {d : Device} {telDest : Destination}
    (h : SetUp flash i d telDest) (fn : Nat → Bytes) :
    (Transport.new d.node.localIdentity true fun _ => ifaceCfg).steps
      ((bringUp telDest i).map (·.withFn fn)) = .ok (d.node.withFn fn) := by
  have hnode := Except.ok.inj h.node
  rw [← hnode]
  rfl

/-- The firmware refines the node: after a `setup`, for as long as the device is not started again,
there are results of the beacon's callback, fixed from the outset, with which the node is set up,
does in every loop what the device's node does in it, and transmits what the frames on the air are
made of. -/
theorem device_refines {fw : FwVersion} {flash : Fs} {first : SetupInput} {d₀ d : Device}
    {rs : List (Rec Device Act)} (hfirst : setup flash first = .ok d₀)
    (hrun : Run (Lives fw) d₀ rs d) (hruns : ∀ r ∈ rs, r.act.Runs) :
    ∃ telDest fn, Destination.new d₀.node.localIdentity telemetryDestName = .ok telDest ∧
      (Transport.new d₀.node.localIdentity true fun _ => ifaceCfg).steps
        ((bringUp telDest first).map (·.withFn fn)) = .ok (d₀.node.withFn fn) ∧
      (∀ r ∈ rs, ∃ trs, Renders fw fn r trs) ∧
      ∃ trs, Run Transport.Steps (d₀.node.withFn fn) trs (d.node.withFn fn) ∧
        trs.map Rec.act = rs.flatMap calls := by
  obtain ⟨telDest, hset⟩ := setUp_of_setup hfirst
  obtain ⟨payloads, -, hfollows⟩ := follows_run hrun hruns hset.wired
  obtain ⟨fn, hfn⟩ := exists_returns payloads
  exact ⟨telDest, fn, hset.destination, hset.follows _, hfollows _ hfn,
    run_of_renders hrun (hfollows _ hfn)⟩

end Firmware

namespace Firmware
open Vectors
attribute [local instance] lib

/-- One loop of Bob's device. -/
theorem device_refines_bob : ∃ d₀ d fn trs, setup empty bobStarts = .ok d₀ ∧
    act fwTest d₀ (.loop (busy 10 (0x50 :: aliceAnnounce))) = .ok d ∧
    Run Transport.Steps (d₀.node.withFn fn) trs (d.node.withFn fn) ∧
    trs.map Rec.act = [.tick 10, .inbound loraIface aliceAnnounce 10] := by
  obtain ⟨d₀, hd₀, h₀⟩ := setup_returns derivesKeys_lib stored_empty (i := bobStarts) ⟨rfl, rfl⟩
  obtain ⟨d, hd, -⟩ := act_returns (show fwTest.length < 256 by decide) derivesKeys_lib h₀
    (a := .loop (busy 10 (0x50 :: aliceAnnounce))) (fun calls hcalls => by cases hcalls)
  obtain ⟨telDest, fn, -, -, -, trs, hrun, hacts⟩ :=
    device_refines hd₀ (.single hd) (by simp [Act.Runs])
  refine ⟨d₀, d, fn, trs, hd₀, hd, hrun, hacts.trans ?_⟩
  have hfree : d₀.reassembly = noReassembly := by
    obtain ⟨telDest, hset⟩ := setUp_of_setup hd₀
    exact hset.reassembly
  have hheard : heard noReassembly (busy 10 (0x50 :: aliceAnnounce)).rx = some aliceAnnounce := by
    decide +kernel
  simp only [List.flatMap_cons, List.flatMap_nil, List.append_nil, calls, hfree, hheard]
  rfl

end Firmware
end Reticulum
