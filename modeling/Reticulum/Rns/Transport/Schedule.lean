import Reticulum.Rns.Transport.Counters
import Reticulum.Rns.Transport.Run
import Reticulum.Rns.Vectors

/-!
# Scheduled announces under the clock of `loop()`

`loop()` passes `millis()`, which wraps after `2 ^ 32` ms, where `tick` takes 64 bits.
`drive_scheduled_announces` keeps absolute deadlines: one computed before the wrap lies past the
wrap, where the clock never gets.
-/

namespace Reticulum

/-- `millis()`, when `real` ms have passed. -/
def millis (real : Nat) : Nat := real % 2 ^ 32

/-- A call at a real time, as `loop()` makes it. -/
def Action.clocked : Action → Action
  | .inbound receivedOn wire real => .inbound receivedOn wire (millis real)
  | .tick real => .tick (millis real)
  | a => a

def Action.tickTime? : Action → Option Nat
  | .tick real => some real
  | _ => none

theorem Action.tickTime?_eq_some {a : Action} {real : Nat} :
    a.tickTime? = some real ↔ a = .tick real := by
  cases a <;> simp [Action.tickTime?]

theorem Action.tickTime?_eq_none {a : Action} : a.tickTime? = none ↔ ∀ real, a ≠ .tick real := by
  cases a <;> simp [Action.tickTime?]

def ticks (rs : List (Rec Transport Action)) : List Nat := rs.filterMap fun r => r.act.tickTime?

/-- When a schedule is due next: in real time, and as `next_emit_ms` has it. -/
structure Deadline where
  real : Nat
  clock : Nat

/-- A schedule that is due at `real` fires and is set for one period later. -/
def Deadline.next (period : Nat) (d : Deadline) (real : Nat) : Deadline :=
  if d.real ≤ real then ⟨real + period, millis real + period⟩ else d

/-- The deadline after ticks at the times `reals`, when every due tick fires. -/
def deadlineAfter (offset period : Nat) (reals : List Nat) : Deadline :=
  reals.foldl (Deadline.next period) ⟨offset, offset⟩

theorem deadlineAfter_snoc (offset period : Nat) (reals : List Nat) (real : Nat) :
    deadlineAfter offset period (reals ++ [real]) =
      (deadlineAfter offset period reals).next period real := by
  simp [deadlineAfter]

theorem deadlineAfter_cases (offset period : Nat) (reals : List Nat) :
    deadlineAfter offset period reals = ⟨offset, offset⟩ ∨
      ∃ real ∈ reals,
        deadlineAfter offset period reals = ⟨real + period, millis real + period⟩ := by
  induction reals using List.reverseRecOn with
  | nil => exact .inl rfl
  | append_singleton reals real ih =>
    rw [deadlineAfter_snoc, Deadline.next]
    split
    · exact .inr ⟨real, by simp, rfl⟩
    · exact ih.imp id fun ⟨r, hr, h⟩ => ⟨r, List.mem_append_left _ hr, h⟩

theorem real_le_of_clock_le {offset period real : Nat} {reals : List Nat}
    (hle : ∀ r ∈ reals, r ≤ real)
    (h : (deadlineAfter offset period reals).clock ≤ millis real) :
    (deadlineAfter offset period reals).real ≤ real := by
  rcases deadlineAfter_cases offset period reals with hd | ⟨r, hr, hd⟩
  · rw [hd] at h ⊢
    exact h.trans (Nat.mod_le _ _)
  · rw [hd] at h ⊢
    have := hle r hr
    simp only [millis] at h ⊢
    omega

namespace Transport
section
variable [CryptoLib]

def Loops (t : Transport) (a : Action) (t' : Transport) : Prop := t.step a.clocked = .ok t'

/-- Between `t` and `t'` an announce of the local destination `destHash` was built and sent on every
interface, and counted as scheduled. -/
def EmitsScheduled (destHash : Bytes) (t t' : Transport) : Prop :=
  t'.stats .scheduledAnnouncesEmitted = t.stats .scheduledAnnouncesEmitted + 1 ∧
    ∃ dest randomPrefix unixSeconds appData wire,
      t.localDestinations.lookup (keyOf destHash) = some dest ∧
      dest.buildAnnounce randomPrefix unixSeconds appData [] false = .ok wire ∧
      t'.out = t.out ++ t.interfaces.map fun i => .transmit .ownAnnounce i wire

/-- At a tick at `now`, the round of `drive_scheduled_announces` for its schedule `k` emits. -/
def FiresAt (t : Transport) (k now : Nat) : Prop :=
  ∃ s l t₁ s' t₂, t.scheduledAnnounces[k]? = some s ∧
    driveSchedules now (t.scheduledAnnounces.take k)
      ({ t with out := [] }.driveAnnounceRebroadcast now) = .ok (l, t₁) ∧
    driveSchedule now s t₁ = .ok (s', t₂) ∧ EmitsScheduled s.destHash t₁ t₂

omit [CryptoLib] in
theorem out_transmitAll (kind : TxKind) (wire : Bytes) (is : List IfaceId) (t : Transport) :
    (is.foldl (fun t i => t.transmitNow kind i wire) t).out =
      t.out ++ is.map fun i => .transmit kind i wire := by
  obtain ⟨s, h⟩ := adds_transmitAll t kind is wire
  rw [h]

theorem driveSchedule_of_due {now : Nat} {s s' : ScheduledAnnounce} {t t' : Transport}
    (h : driveSchedule now s t = .ok (s', t')) (hdue : s.nextEmitMs ≤ now) (hp : 0 < s.periodMs) :
    ∃ appData emitted t₁, t.emitAnnounceForLocal s.destHash appData false none = .ok (emitted, t₁) ∧
      t' = (if emitted then t₁.count .scheduledAnnouncesEmitted else t₁) ∧
      s'.destHash = s.destHash ∧ s'.periodMs = s.periodMs ∧ s'.nextEmitMs = now + s.periodMs := by
  unfold driveSchedule at h
  rw [if_neg (Nat.not_lt.mpr hdue)] at h
  cases hfn : s.fn with
  | none =>
    simp only [hfn] at h
    obtain ⟨⟨emitted, t₁⟩, h₁, h⟩ := bind_eq_ok h
    cases h
    exact ⟨_, _, _, h₁, rfl, rfl, rfl, if_pos hp⟩
  | some fn =>
    simp only [hfn] at h
    obtain ⟨⟨emitted, t₁⟩, h₁, h⟩ := bind_eq_ok h
    cases h
    exact ⟨_, _, _, h₁, rfl, rfl, rfl, if_pos hp⟩

theorem emitAnnounceForLocal_emits {t t' : Transport} {d appData : Bytes} {emitted : Bool}
    (h : t.emitAnnounceForLocal d appData false none = .ok (emitted, t'))
    (hd : t.isLocalDestination d = true) (hf : t.announceSeedFn.isSome) :
    emitted = true ∧ EmitsScheduled d t (t'.count .scheduledAnnouncesEmitted) := by
  obtain ⟨dest, hd⟩ := Option.isSome_iff_exists.mp hd
  obtain ⟨f, hf⟩ := Option.isSome_iff_exists.mp hf
  unfold emitAnnounceForLocal at h
  simp only [hd, hf] at h
  obtain ⟨wire, hwire, h⟩ := bind_eq_ok h
  cases h
  refine ⟨rfl, ?_, dest, _, _, appData, wire, hd, hwire, ?_⟩
  · simp only [count, ↓reduceIte]
    rw [transmitAll_stats]
  · exact out_transmitAll _ _ _ _

theorem driveSchedule_emits_iff {now : Nat} {s s' : ScheduledAnnounce} {t t' : Transport}
    (h : driveSchedule now s t = .ok (s', t')) (hp : 0 < s.periodMs)
    (hd : t.isLocalDestination s.destHash = true) (hf : t.announceSeedFn.isSome) :
    (EmitsScheduled s.destHash t t' ↔ s.nextEmitMs ≤ now) ∧ s'.destHash = s.destHash ∧
      s'.periodMs = s.periodMs ∧
      s'.nextEmitMs = if s.nextEmitMs ≤ now then now + s.periodMs else s.nextEmitMs := by
  by_cases hdue : s.nextEmitMs ≤ now
  · obtain ⟨appData, emitted, t₁, hem, rfl, hsd, hsp, hsn⟩ := driveSchedule_of_due h hdue hp
    obtain ⟨rfl, hemits⟩ := emitAnnounceForLocal_emits hem hd hf
    exact ⟨iff_of_true hemits hdue, hsd, hsp, by rw [if_pos hdue, hsn]⟩
  · unfold driveSchedule at h
    rw [if_pos (Nat.lt_of_not_le hdue)] at h
    cases h
    refine ⟨iff_of_false ?_ hdue, rfl, rfl, by rw [if_neg hdue]⟩
    rintro ⟨hcount, -⟩
    omega

theorem driveSchedules_get {now k : Nat} {l l' : List ScheduledAnnounce} {s : ScheduledAnnounce}
    {t t' : Transport} (h : driveSchedules now l t = .ok (l', t')) (hs : l[k]? = some s) :
    ∃ l₁ t₁ s' t₂, driveSchedules now (l.take k) t = .ok (l₁, t₁) ∧
      driveSchedule now s t₁ = .ok (s', t₂) ∧ l'[k]? = some s' := by
  induction l generalizing k t l' with
  | nil => simp at hs
  | cons s₀ l ih =>
    obtain ⟨⟨s₁, t₁⟩, h₁, h⟩ := bind_eq_ok h
    obtain ⟨⟨l₂, t₂⟩, h₂, h⟩ := bind_eq_ok h
    cases h
    cases k with
    | zero =>
      cases hs
      exact ⟨[], t, s₁, t₁, rfl, h₁, rfl⟩
    | succ k =>
      obtain ⟨l₃, t₃, s', t₄, h₃, h₄, hs'⟩ := ih h₂ hs
      refine ⟨s₁ :: l₃, t₃, s', t₄, ?_, h₄, hs'⟩
      rw [List.take_succ_cons, driveSchedules, h₁]
      exact congrArg (· >>= fun r => Except.ok (s₁ :: r.1, r.2)) h₃

omit [CryptoLib] in
theorem Idles.isLocalDestination {t t' : Transport} (h : Idles t t') (d : Bytes) :
    t'.isLocalDestination d = t.isLocalDestination d := by
  obtain ⟨s, f, n, o, -, rfl⟩ := h
  rfl

omit [CryptoLib] in
theorem Idles.announceSeedFn {t t' : Transport} (h : Idles t t') :
    t'.announceSeedFn = t.announceSeedFn := by
  obtain ⟨s, f, n, o, -, rfl⟩ := h
  rfl

omit [CryptoLib] in
theorem Idles.scheduledAnnounces {t t' : Transport} (h : Idles t t') :
    t'.scheduledAnnounces = t.scheduledAnnounces := by
  obtain ⟨s, f, n, o, -, rfl⟩ := h
  rfl

theorem tick_schedule {t t' : Transport} {now k : Nat} {s : ScheduledAnnounce}
    (h : t.step (.tick now) = .ok t') (hs : t.scheduledAnnounces[k]? = some s)
    (hp : 0 < s.periodMs) (hd : t.isLocalDestination s.destHash = true)
    (hf : t.announceSeedFn.isSome) :
    (FiresAt t k now ↔ s.nextEmitMs ≤ now) ∧ ∃ s', t'.scheduledAnnounces[k]? = some s' ∧
      s'.destHash = s.destHash ∧ s'.periodMs = s.periodMs ∧
      s'.nextEmitMs = if s.nextEmitMs ≤ now then now + s.periodMs else s.nextEmitMs := by
  obtain ⟨t₁, h₁, h⟩ := bind_eq_ok h
  obtain ⟨⟨sch, t₂⟩, h₂, h₁⟩ := bind_eq_ok h₁
  cases h₁
  have hre := driveAnnounceRebroadcast_idles { t with out := [] } now
  have hsch := hre.scheduledAnnounces
  rw [hsch] at h₂
  obtain ⟨l₁, t₃, s', t₄, htake, hone, hs'⟩ := driveSchedules_get h₂ hs
  have hidle := hre.trans (driveSchedules_idles htake)
  obtain ⟨hiff, hsd, hsp, hsn⟩ := driveSchedule_emits_iff hone hp
    ((hidle.isLocalDestination _).trans hd) (by rw [hidle.announceSeedFn]; exact hf)
  refine ⟨⟨?_, fun hdue => ⟨s, l₁, t₃, s', t₄, hs, htake, hone, hiff.mpr hdue⟩⟩, s', ?_, hsd, hsp,
    hsn⟩
  · rintro ⟨s₀, l₀, u₁, s₁, u₂, hs₀, htake₀, hone₀, hemits⟩
    cases hs.symm.trans hs₀
    cases htake.symm.trans htake₀
    cases hone.symm.trans hone₀
    exact hiff.mp hemits
  · have hi := Idles.foldl (fun t i => tickInterface t i now)
      (fun t i => tickInterface_idles t i now) t₂.interfaces { t₂ with scheduledAnnounces := sch }
    cases h
    exact (congrArg (·[k]?) hi.scheduledAnnounces).trans hs'

theorem step_schedule {t t' : Transport} {a : Action} {k : Nat} {s : ScheduledAnnounce}
    (h : t.step a = .ok t') (ha : ∀ now, a ≠ .tick now) (hs : t.scheduledAnnounces[k]? = some s) :
    t'.scheduledAnnounces[k]? = some s := by
  obtain ⟨l, hl⟩ := (step_configures h).scheduledAnnounces ha
  rw [hl, List.getElem?_append_left (List.getElem?_eq_some_iff.mp hs).1]
  exact hs

theorem step_isLocalDestination {t t' : Transport} {a : Action} {d : Bytes}
    (h : t.step a = .ok t') (hd : t.isLocalDestination d = true) :
    t'.isLocalDestination d = true := by
  rcases (step_configures h).localDestinations with hsame | ⟨dest, -, hadd⟩
  · rw [isLocalDestination, hsame]
    exact hd
  · rw [isLocalDestination, hadd, Dict.lookup_emplace]
    split
    · rfl
    · exact hd

/-! ### Whole runs -/

def Fires (k : Nat) (r : Rec Transport Action) : Prop :=
  ∃ real, r.act = .tick real ∧ FiresAt r.pre k (millis real)

open Classical in
/-- The real time of the last step that fires the schedule `k`. -/
noncomputable def lastFiring (k : Nat) (rs : List (Rec Transport Action)) : Option Nat :=
  rs.foldl (fun last r => if Fires k r then r.act.time? else last) none

/-- When a schedule is due that fired last at `last`. -/
def dueFrom (offset period : Nat) (last : Option Nat) : Nat :=
  (last.map (· + period)).getD offset

theorem lastFiring_snoc_of_fires {k real : Nat} {r : Rec Transport Action}
    {rs : List (Rec Transport Action)} (hr : r.act = .tick real) (h : Fires k r) :
    lastFiring k (rs ++ [r]) = some real := by
  simp [lastFiring, h, hr, Action.time?]

theorem lastFiring_snoc_of_not_fires {k : Nat} {r : Rec Transport Action}
    {rs : List (Rec Transport Action)} (h : ¬ Fires k r) :
    lastFiring k (rs ++ [r]) = lastFiring k rs := by
  simp [lastFiring, h]

/-- The node agrees with the deadlines of the ticks it has taken. -/
structure Synced (k : Nat) (d : Bytes) (period offset : Nat) (rs : List (Rec Transport Action))
    (t : Transport) : Prop where
  entry : ∃ s, t.scheduledAnnounces[k]? = some s ∧ s.destHash = d ∧ s.periodMs = period ∧
    s.nextEmitMs = (deadlineAfter offset period (ticks rs)).clock
  due : dueFrom offset period (lastFiring k rs) = (deadlineAfter offset period (ticks rs)).real

/-- Every tick that is due fires the schedule `k`. -/
def FiresOnTime (k offset period : Nat) (rs : List (Rec Transport Action)) : Prop :=
  Run.Throughout (fun before r => ∀ real, r.act = .tick real →
    dueFrom offset period (lastFiring k before) ≤ real → Fires k r) rs

/-- At every tick that is due the clock has reached the deadline. -/
def ClockOnTime (offset period : Nat) (rs : List (Rec Transport Action)) : Prop :=
  Run.Throughout (fun before r => ∀ real, r.act = .tick real →
    (deadlineAfter offset period (ticks before)).real ≤ real →
    (deadlineAfter offset period (ticks before)).clock ≤ millis real) rs

omit [CryptoLib] in
theorem ticks_snoc_tick {r : Rec Transport Action} {real : Nat} (rs : List (Rec Transport Action))
    (hr : r.act = .tick real) : ticks (rs ++ [r]) = ticks rs ++ [real] := by
  simp [ticks, Action.tickTime?_eq_some.mpr hr]

omit [CryptoLib] in
theorem ticks_snoc_of_ne {r : Rec Transport Action} (rs : List (Rec Transport Action))
    (hr : ∀ real, r.act ≠ .tick real) : ticks (rs ++ [r]) = ticks rs := by
  simp [ticks, Action.tickTime?_eq_none.mpr hr]

omit [CryptoLib] in
theorem le_of_mem_ticks {rs : List (Rec Transport Action)} {r : Rec Transport Action} {real : Nat}
    (h : Timely (rs ++ [r])) (hr : r.act = .tick real) : ∀ τ ∈ ticks rs, τ ≤ real := by
  intro τ hτ
  obtain ⟨r', hr', hτ⟩ := List.mem_filterMap.mp hτ
  have hact : r'.act.time? = some τ := by rw [Action.tickTime?_eq_some.mp hτ]; rfl
  rw [Timely, List.filterMap_append, List.pairwise_append] at h
  exact h.2.2 τ (List.mem_filterMap.mpr ⟨r', hr', hact⟩) real (by simp [hr, Action.time?])

theorem Synced.fires_iff {k : Nat} {d : Bytes} {period offset real : Nat}
    {rs : List (Rec Transport Action)} {r : Rec Transport Action}
    (hsync : Synced k d period offset rs r.pre) (hr : r.act = .tick real)
    (hstep : Loops r.pre r.act r.post) (hp : 0 < period)
    (hd : r.pre.isLocalDestination d = true) (hf : r.pre.announceSeedFn.isSome) :
    Fires k r ↔ (deadlineAfter offset period (ticks rs)).clock ≤ millis real := by
  obtain ⟨s, hs, rfl, rfl, hn⟩ := hsync.entry
  rw [hr] at hstep
  obtain ⟨hfires, -⟩ := tick_schedule hstep hs hp hd hf
  rw [← hn, ← hfires]
  constructor
  · rintro ⟨real', hr', h⟩
    cases hr.symm.trans hr'
    exact h
  · exact fun h => ⟨real, hr, h⟩

/-- One more step keeps the deadlines in step, unless a due tick misses its firing. -/
theorem Synced.snoc {k : Nat} {d : Bytes} {period offset : Nat} {rs : List (Rec Transport Action)}
    {r : Rec Transport Action} (hsync : Synced k d period offset rs r.pre)
    (hstep : Loops r.pre r.act r.post) (htime : Timely (rs ++ [r])) (hp : 0 < period)
    (hd : r.pre.isLocalDestination d = true) (hf : r.pre.announceSeedFn.isSome)
    (hclock : ∀ real, r.act = .tick real → (deadlineAfter offset period (ticks rs)).real ≤ real →
      (deadlineAfter offset period (ticks rs)).clock ≤ millis real) :
    Synced k d period offset (rs ++ [r]) r.post := by
  cases hr : r.act.tickTime? with
  | none =>
    have hne := Action.tickTime?_eq_none.mp hr
    have hnot : ¬ Fires k r := fun ⟨real, h, _⟩ => hne real h
    obtain ⟨s, hs, hsd, hsp, hn⟩ := hsync.entry
    refine ⟨⟨s, step_schedule hstep ?_ hs, hsd, hsp, ?_⟩, ?_⟩
    · intro now h
      cases hact : r.act <;> rw [hact] at h <;> cases h
      exact hne _ hact
    · rw [ticks_snoc_of_ne rs hne, hn]
    · rw [ticks_snoc_of_ne rs hne, lastFiring_snoc_of_not_fires hnot, hsync.due]
  | some real =>
    have htick := Action.tickTime?_eq_some.mp hr
    have hfires := hsync.fires_iff htick hstep hp hd hf
    have hiff : (deadlineAfter offset period (ticks rs)).clock ≤ millis real ↔
        (deadlineAfter offset period (ticks rs)).real ≤ real :=
      ⟨real_le_of_clock_le (le_of_mem_ticks htime htick), hclock real htick⟩
    obtain ⟨s, hs, rfl, rfl, hn⟩ := hsync.entry
    rw [htick] at hstep
    obtain ⟨-, s', hs', hsd, hsp, hn'⟩ := tick_schedule hstep hs hp hd hf
    rw [hn] at hn'
    by_cases hdue : (deadlineAfter offset s.periodMs (ticks rs)).real ≤ real
    · have hc := hiff.mpr hdue
      refine ⟨⟨s', hs', hsd, hsp, ?_⟩, ?_⟩
      · rw [ticks_snoc_tick rs htick, deadlineAfter_snoc, Deadline.next, if_pos hdue, hn',
          if_pos hc]
      · rw [ticks_snoc_tick rs htick, deadlineAfter_snoc, Deadline.next, if_pos hdue,
          lastFiring_snoc_of_fires htick (hfires.mpr hc)]
        rfl
    · have hc := fun h => hdue (hiff.mp h)
      refine ⟨⟨s', hs', hsd, hsp, ?_⟩, ?_⟩
      · rw [ticks_snoc_tick rs htick, deadlineAfter_snoc, Deadline.next, if_neg hdue, hn',
          if_neg hc]
      · rw [ticks_snoc_tick rs htick, deadlineAfter_snoc, Deadline.next, if_neg hdue,
          lastFiring_snoc_of_not_fires (fun h => hc (hfires.mp h)), hsync.due]

/-- A schedule of a registered destination fires at every tick that is due, exactly when at each of
these ticks the wrapped clock has reached the deadline that the last firing left. -/
theorem firesOnTime_iff {t₀ t : Transport} {rs : List (Rec Transport Action)} {k : Nat} {d : Bytes}
    {period offset : Nat} {fn : Option (Nat → Bytes)} (hrun : Run Loops t₀ rs t)
    (htime : Timely rs) (hs : t₀.scheduledAnnounces[k]? = some ⟨d, period, offset, fn, 0⟩)
    (hp : 0 < period) (hd : t₀.isLocalDestination d = true)
    (hf : ∀ r ∈ rs, r.pre.announceSeedFn.isSome) :
    FiresOnTime k offset period rs ↔ ClockOnTime offset period rs := by
  have hlocal : ∀ {rs s}, Run Loops t₀ rs s → s.isLocalDestination d = true := fun h =>
    h.inv (I := fun s => s.isLocalDestination d = true) hd fun _ _ _ hi hs =>
      step_isLocalDestination hs hi
  suffices h : (FiresOnTime k offset period rs ↔ ClockOnTime offset period rs) ∧
      (ClockOnTime offset period rs → Synced k d period offset rs t) from h.1
  induction hrun with
  | nil =>
    exact ⟨iff_of_true Run.throughout_nil Run.throughout_nil,
      fun _ => ⟨⟨_, hs, rfl, rfl, rfl⟩, rfl⟩⟩
  | @snoc rs s s' a hrun hstep ih =>
    obtain ⟨hiff, hsync⟩ := ih htime.of_append fun r hr => hf r (List.mem_append_left _ hr)
    have hfs := hf ⟨s, a, s'⟩ (List.mem_append_right _ (List.mem_singleton_self _))
    refine ⟨?_, fun hclock => ?_⟩
    · rw [FiresOnTime, ClockOnTime, Run.throughout_snoc, Run.throughout_snoc]
      refine (and_congr_left fun _ => hiff).trans (and_congr_right fun hclock => ?_)
      refine forall_congr' fun real => forall_congr' fun hr => ?_
      rw [(hsync hclock).due,
        (hsync hclock).fires_iff (r := ⟨s, a, s'⟩) hr hstep hp (hlocal hrun) hfs]
    · obtain ⟨hclock, hlast⟩ := Run.throughout_snoc.mp hclock
      exact (hsync hclock).snoc (r := ⟨s, a, s'⟩) hstep htime hp (hlocal hrun) hfs hlast

omit [CryptoLib] in
theorem clockOnTime_of_lt {offset period : Nat} {rs : List (Rec Transport Action)}
    (h : ∀ real ∈ ticks rs, real < 2 ^ 32) : ClockOnTime offset period rs := by
  rintro before r after rfl real hr hdue
  have hmem : ∀ τ, τ ∈ ticks before ∨ τ = real → τ < 2 ^ 32 := by
    intro τ hτ
    refine h τ ?_
    rw [ticks, List.filterMap_append, List.mem_append]
    rcases hτ with hτ | rfl
    · exact .inl hτ
    · exact .inr (by simp [Action.tickTime?_eq_some.mpr hr])
  have hreal : millis real = real := Nat.mod_eq_of_lt (hmem real (.inr rfl))
  rw [hreal]
  rcases deadlineAfter_cases offset period (ticks before) with hd | ⟨τ, hτ, hd⟩
  · rw [hd] at hdue ⊢
    exact hdue
  · rw [hd] at hdue ⊢
    rw [millis, Nat.mod_eq_of_lt (hmem τ (.inl hτ))]
    exact hdue

theorem loops_of_steps {t₀ : Transport} {a b : Action}
    (h : (t₀.steps [a.clocked, b.clocked]).toOption.isSome = true) :
    ∃ t₁ t₂, Loops t₀ a t₁ ∧ Loops t₁ b t₂ := by
  obtain ⟨t₂, h⟩ := steps_of_isSome h
  obtain ⟨t₁, ha, h⟩ := steps_cons h
  obtain ⟨t₂', hb, h⟩ := steps_cons h
  exact ⟨t₁, t₂', ha, hb⟩

end

open Vectors
attribute [local instance] lib

def bobDest : Destination where
  identity := bob
  appName := [98, 111, 98]
  nameHash := Identity.nameHash [98, 111, 98]
  destinationHash := Identity.destHashOf (Identity.nameHash [98, 111, 98]) bob.identityHash

def everySecond : List Action :=
  [.registerInterface 0, .registerLocalDestination bobDest,
    .setAnnounceSeedFn (some fun _ => ⟨[1, 2, 3, 4, 5], 0⟩),
    .scheduleAnnounce bobDest.destinationHash 1000 none 0]

theorem everySecond_state : ∃ t₀, relay.steps everySecond = .ok t₀ ∧
    t₀.scheduledAnnounces[0]? = some ⟨bobDest.destinationHash, 1000, 0, none, 0⟩ ∧
    t₀.isLocalDestination bobDest.destinationHash = true ∧ t₀.announceSeedFn.isSome = true ∧
    (t₀.steps [.tick (millis 5), .tick (millis 1005)]).toOption.isSome = true ∧
    (t₀.steps [.tick (millis (2 ^ 32 - 500)), .tick (millis (2 ^ 32 + 1000))]).toOption.isSome =
      true :=
  ⟨_, rfl, rfl, by decide +kernel, rfl, by decide +kernel, by decide +kernel⟩

theorem two_ticks {t₀ : Transport} {x y : Nat} (hf : t₀.announceSeedFn.isSome = true)
    (h : (t₀.steps [.tick (millis x), .tick (millis y)]).toOption.isSome = true) :
    ∃ t₁ t₂, Loops t₀ (.tick x) t₁ ∧ Loops t₁ (.tick y) t₂ ∧
      t₁.announceSeedFn.isSome = true := by
  obtain ⟨t₁, t₂, h₁, h₂⟩ := loops_of_steps (a := .tick x) (b := .tick y) h
  obtain ⟨sch, s, f, n, o, -, ht₁⟩ := tick_frame h₁
  exact ⟨t₁, t₂, h₁, h₂, by rw [ht₁]; exact hf⟩

/-- Far from the wrap Bob's schedule fires whenever it is due. -/
theorem firesOnTime_iff_early : ∃ t₀ rs t, Reachable t₀ ∧ Run Loops t₀ rs t ∧
    rs.map Rec.act = [.tick 5, .tick 1005] ∧ FiresOnTime 0 0 1000 rs := by
  obtain ⟨t₀, h₀, hs, hd, hf, hrun, -⟩ := everySecond_state
  obtain ⟨t₁, t₂, h₁, h₂, hf₁⟩ := two_ticks (x := 5) (y := 1005) hf hrun
  obtain ⟨_, hr, -⟩ := run_of_steps h₀
  have htwo : Run Loops t₀ [⟨t₀, .tick 5, t₁⟩, ⟨t₁, .tick 1005, t₂⟩] t₂ := .cons h₁ (.single h₂)
  refine ⟨t₀, _, t₂, (reachable_new bob true fun _ => cfg).run hr, htwo, rfl, ?_⟩
  refine (firesOnTime_iff htwo (by simp [Timely, Action.time?]) hs (by decide) hd ?_).mpr
    (clockOnTime_of_lt (by simp [ticks, Action.tickTime?]))
  simp only [List.mem_cons, List.not_mem_nil, or_false, forall_eq_or_imp, forall_eq]
  exact ⟨hf, hf₁⟩

/-- Half a second before the wrap Bob's schedule is set past it: a second and a half later it is
due, and does not fire. -/
theorem wrap_misses_firing : ∃ t₀ rs t, Reachable t₀ ∧ Run Loops t₀ rs t ∧ Timely rs ∧
    t₀.scheduledAnnounces[0]? = some ⟨bobDest.destinationHash, 1000, 0, none, 0⟩ ∧
    t₀.isLocalDestination bobDest.destinationHash = true ∧
    (∀ r ∈ rs, r.pre.announceSeedFn.isSome = true) ∧
    rs.map Rec.act = [.tick (2 ^ 32 - 500), .tick (2 ^ 32 + 1000)] ∧
    ¬ FiresOnTime 0 0 1000 rs := by
  obtain ⟨t₀, h₀, hs, hd, hf, -, hrun⟩ := everySecond_state
  obtain ⟨t₁, t₂, h₁, h₂, hf₁⟩ := two_ticks (x := 2 ^ 32 - 500) (y := 2 ^ 32 + 1000) hf hrun
  obtain ⟨_, hr, -⟩ := run_of_steps h₀
  have htwo : Run Loops t₀ [⟨t₀, .tick (2 ^ 32 - 500), t₁⟩, ⟨t₁, .tick (2 ^ 32 + 1000), t₂⟩] t₂ :=
    .cons h₁ (.single h₂)
  refine ⟨t₀, _, t₂, (reachable_new bob true fun _ => cfg).run hr, htwo,
    by simp [Timely, Action.time?], hs, hd, ?_, rfl, fun hfires => ?_⟩
  · simp only [List.mem_cons, List.not_mem_nil, or_false, forall_eq_or_imp, forall_eq]
    exact ⟨hf, hf₁⟩
  -- the first tick is due and on time, so the deadlines are in step at the second
  have hsync₀ : Synced 0 bobDest.destinationHash 1000 0 [] t₀ := ⟨⟨_, hs, rfl, rfl, rfl⟩, rfl⟩
  have hsync₁ := hsync₀.snoc (r := ⟨t₀, .tick (2 ^ 32 - 500), t₁⟩) h₁
    (by simp [Timely, Action.time?]) (by decide) hd hf
    fun real _ _ => by simp [ticks, deadlineAfter]
  have hiff := hsync₁.fires_iff (r := ⟨t₁, .tick (2 ^ 32 + 1000), t₂⟩) rfl h₂ (by decide)
    (step_isLocalDestination h₁ hd) hf₁
  have hdue := hsync₁.due
  have hticks : ticks [(⟨t₀, .tick (2 ^ 32 - 500), t₁⟩ : Rec Transport Action)] = [2 ^ 32 - 500] :=
    rfl
  rw [List.nil_append, hticks] at hiff hdue
  have hfire := hfires [⟨t₀, .tick (2 ^ 32 - 500), t₁⟩] ⟨t₁, .tick (2 ^ 32 + 1000), t₂⟩ [] rfl _ rfl
    (by rw [hdue]; decide)
  exact absurd (hiff.mp hfire) (by decide)

end Transport
end Reticulum
