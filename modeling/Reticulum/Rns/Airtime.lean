import Reticulum.Rns.Interface
import Reticulum.Lib.Run
import Reticulum.Lib.Window

/-!
# The announce airtime cap of an interface

Runs of one interface under the calls of its owner. Each tick that transmits announces logs their
airtime; the interface itself keeps only the end of that log. Where the times of the calls do not
go back, no window of the configured length ever holds more than `window_cap_ms()`.
-/

namespace Reticulum
namespace Interface
variable {cfg : Config} {i i' : Interface} {now last : Nat} {log : List EmitRecord}

/-- The calls on an `Interface`. Only `tick` drains the announce queue. -/
inductive Call
  | queueAnnounce (wire : Bytes) (hops : UInt8)
  | transmitNow (wire : Bytes)
  | airtimeUsedMsInWindow
  | tick
deriving DecidableEq

/-- One call at time `nowMs`, with the queued announces it transmits. -/
def call (i : Interface) (nowMs : Nat) : Call → Interface × List Bytes
  | .queueAnnounce wire hops => ((i.queueAnnounce wire hops).2, [])
  -- straight to `on_transmit`: neither the queue nor the emit records see it
  | .transmitNow _ => (i, [])
  | .airtimeUsedMsInWindow => ((i.airtimeUsedMsInWindow nowMs).2, [])
  | .tick => i.tick nowMs

/-- One step of an interface: a call with its time. -/
def Calls (i : Interface) (c : Nat × Call) (i' : Interface) : Prop := i' = (i.call c.1 c.2).1

/-- The announces that a step transmitted out of the queue. -/
def drained (r : Rec Interface (Nat × Call)) : List Bytes := (r.pre.call r.act.1 r.act.2).2

/-- The airtime of the announces that a step transmitted out of the queue. -/
def logged (cfg : Config) (r : Rec Interface (Nat × Call)) : List EmitRecord :=
  (drained r).map fun wire => ⟨r.act.1, wire.length * 8000 / cfg.bitrateBps⟩

/-- The announces transmitted out of the queue at times in `[a, a + W]`. -/
def drainedIn (W a : Nat) (rs : List (Rec Interface (Nat × Call))) : List Bytes :=
  (rs.filter fun r => decide (a ≤ r.act.1 ∧ r.act.1 ≤ a + W)).flatMap drained

theorem airtimeForBytes_eq (n : Nat) : i.airtimeForBytes n = n * 8000 / i.cfg.bitrateBps := by
  unfold airtimeForBytes
  split
  · rename_i hzero
    rw [hzero, Nat.div_zero]
  · rfl

@[simp] theorem queueAnnounce_cfg {wire : Bytes} {hops : UInt8} :
    (i.queueAnnounce wire hops).2.cfg = i.cfg := by
  unfold queueAnnounce
  split <;> rfl

@[simp] theorem queueAnnounce_emits {wire : Bytes} {hops : UInt8} :
    (i.queueAnnounce wire hops).2.emits = i.emits := by
  unfold queueAnnounce
  split <;> rfl

/-- What links an interface to the log of its whole history: it keeps the end of the log, it forgot
only what is too old at its last call, and the log respects the cap. -/
structure Accounts (cfg : Config) (last : Nat) (log : List EmitRecord) (i : Interface) : Prop where
  cfg_eq : i.cfg = cfg
  remembers : Window.Remembers EmitRecord.whenMs cfg.airtimeWindowMs last log i.emits
  capped : Window.Capped EmitRecord.whenMs EmitRecord.airtimeMs cfg.airtimeWindowMs
    cfg.windowCapMs log

theorem accounts_new : Accounts cfg last [] (new cfg) :=
  ⟨rfl, Window.remembers_refl, Window.capped_nil⟩

theorem Accounts.mono (h : Accounts cfg last log i) (hle : last ≤ now) : Accounts cfg now log i :=
  ⟨h.cfg_eq, h.remembers.mono hle, h.capped⟩

theorem Accounts.congr (h : Accounts cfg last log i) (hcfg : i'.cfg = i.cfg)
    (hemits : i'.emits = i.emits) : Accounts cfg last log i' :=
  ⟨hcfg.trans h.cfg_eq, hemits ▸ h.remembers, h.capped⟩

/-- The cutoff saturates at zero, so an early prune drops nothing. -/
theorem Accounts.pruneOldEmits (h : Accounts cfg now log i) :
    Accounts cfg now log (i.pruneOldEmits now) := by
  refine ⟨h.cfg_eq, h.remembers.dropWhile ?_, h.capped⟩
  intro e he
  rw [h.cfg_eq] at he
  have hlt := of_decide_eq_true he
  split at hlt <;> omega

theorem Accounts.emit {needed : Nat} (h : Accounts cfg now log i)
    (hroom : (i.emits.map EmitRecord.airtimeMs).sum + needed ≤ cfg.windowCapMs)
    (q : List QueueEntry) :
    Accounts cfg now (log ++ [⟨now, needed⟩])
      { i with queue := q, emits := i.emits ++ [⟨now, needed⟩] } :=
  ⟨h.cfg_eq, h.remembers.snoc, h.capped.snoc h.remembers hroom⟩

theorem Accounts.drain {n : Nat} {wires : List Bytes} (h : Accounts cfg now log i)
    (hd : drain now n i = (i', wires)) :
    Accounts cfg now (log ++ wires.map fun w => ⟨now, w.length * 8000 / cfg.bitrateBps⟩) i' := by
  have hrounds := rounds_of_drain hd
  clear hd
  induction hrounds generalizing log with
  | done => simpa using h
  | empty hq => simpa using h
  | full hq hfull => simpa using h.pruneOldEmits
  | @sent n i i' pick rest wires hq hroom next ih =>
    have hneeded : i.airtimeForBytes pick.wire.length =
        pick.wire.length * 8000 / cfg.bitrateBps := by rw [airtimeForBytes_eq, h.cfg_eq]
    have hsum : ((i.pruneOldEmits now).emits.map EmitRecord.airtimeMs).sum +
        i.airtimeForBytes pick.wire.length ≤ cfg.windowCapMs :=
      (of_decide_eq_true hroom).trans_eq (congrArg Config.windowCapMs h.cfg_eq)
    have hlast := ih (h.pruneOldEmits.emit hsum rest)
    rw [hneeded, List.append_assoc] at hlast
    exact hlast

/-- Any call, made no earlier than the last one, keeps the accounts. -/
theorem Accounts.step {r : Rec Interface (Nat × Call)} (h : Accounts cfg last log r.pre)
    (hle : last ≤ r.act.1) (hcalls : Calls r.pre r.act r.post) :
    Accounts cfg r.act.1 (log ++ logged cfg r) r.post := by
  obtain ⟨pre, ⟨now, c⟩, post⟩ := r
  have hnow := h.mono hle
  obtain rfl : post = (pre.call now c).1 := hcalls
  cases c with
  | queueAnnounce wire hops =>
    have hcfg : (pre.queueAnnounce wire hops).2.cfg = pre.cfg := queueAnnounce_cfg
    have hkept := hnow.congr hcfg queueAnnounce_emits
    simpa [logged, drained, call] using hkept
  | transmitNow wire => simpa [logged, drained, call] using hnow
  | airtimeUsedMsInWindow =>
    simpa [logged, drained, call, airtimeUsedMsInWindow] using hnow.pruneOldEmits
  | tick => exact hnow.drain rfl

theorem accounts_of_run {rs : List (Rec Interface (Nat × Call))} (hrun : Run Calls (new cfg) rs i)
    (htimes : (rs.map fun r => r.act.1).Pairwise (· ≤ ·)) (hnow : ∀ r ∈ rs, r.act.1 ≤ now) :
    Accounts cfg now (rs.flatMap (logged cfg)) i := by
  induction hrun generalizing now with
  | nil => exact accounts_new
  | @snoc rs s s' a _ hcalls ih =>
    rw [List.map_append, List.pairwise_append] at htimes
    obtain ⟨hsorted, -, hbefore⟩ := htimes
    have hle : ∀ r ∈ rs, r.act.1 ≤ a.1 := by
      intro r hr
      exact hbefore _ (List.mem_map_of_mem hr) _ (by simp)
    have hstep := (ih hsorted hle).step (r := ⟨s, a, s'⟩) (Nat.le_refl _) hcalls
    have hlast : a.1 ≤ now := hnow ⟨s, a, s'⟩ (by simp)
    simpa using hstep.mono hlast

theorem spent_logged (W a : Nat) (rs : List (Rec Interface (Nat × Call))) :
    Window.spent EmitRecord.whenMs EmitRecord.airtimeMs W (rs.flatMap (logged cfg)) a =
      ((drainedIn W a rs).map fun wire => wire.length * 8000 / cfg.bitrateBps).sum := by
  induction rs with
  | nil => rfl
  | cons r rs ih =>
    rw [List.flatMap_cons, Window.spent_append, ih]
    by_cases hin : a ≤ r.act.1 ∧ r.act.1 ≤ a + W
    · rw [Window.spent_eq_sum (by simpa [logged] using fun _ _ => hin)]
      simp [drainedIn, logged, hin, Function.comp_def]
    · rw [Window.spent_eq_zero (by simpa [logged] using fun _ _ => not_and.mp hin)]
      simp [drainedIn, hin]

/-- The announces that the ticks of any run transmit in any window of the configured length, both
ends included, take no more airtime than the cap. -/
theorem airtime_le_windowCapMs {rs : List (Rec Interface (Nat × Call))}
    (hrun : Run Calls (new cfg) rs i) (htimes : (rs.map fun r => r.act.1).Pairwise (· ≤ ·))
    (a : Nat) :
    ((drainedIn cfg.airtimeWindowMs a rs).map fun wire => wire.length * 8000 / cfg.bitrateBps).sum ≤
      (new cfg).windowCapMs := by
  obtain ⟨now, hnow⟩ : ∃ now, ∀ r ∈ rs, r.act.1 ≤ now :=
    ⟨(rs.map fun r => r.act.1).sum, fun r hr => List.single_le_sum (by simp) _
      (List.mem_map_of_mem hr)⟩
  have haccounts := accounts_of_run hrun htimes hnow
  have hcapped := haccounts.capped a
  rwa [spent_logged] at hcapped

/-- The second announce waits until the first has left the window. -/
theorem airtime_le_windowCapMs_small :
    ∃ rs i, Run Calls (new ⟨8000, 100, 4, 1000, 500⟩) rs i ∧
      ((drainedIn 1000 0 rs).map fun wire => wire.length * 8000 / 8000).sum ≤ 100 ∧
      ((drainedIn 1000 1 rs).map fun wire => wire.length * 8000 / 8000).sum = 60 := by
  let wire : Bytes := List.replicate 60 0
  let i₀ := new ⟨8000, 100, 4, 1000, 500⟩
  let i₁ := (i₀.call 0 (.queueAnnounce wire 1)).1
  let i₂ := (i₁.call 0 (.queueAnnounce wire 2)).1
  let i₃ := (i₂.call 0 .tick).1
  let i₄ := (i₃.call 1000 .tick).1
  let i₅ := (i₄.call 1001 .tick).1
  have hrun : Run Calls i₀ [⟨i₀, (0, .queueAnnounce wire 1), i₁⟩,
      ⟨i₁, (0, .queueAnnounce wire 2), i₂⟩, ⟨i₂, (0, .tick), i₃⟩, ⟨i₃, (1000, .tick), i₄⟩,
      ⟨i₄, (1001, .tick), i₅⟩] i₅ :=
    .cons rfl (.cons rfl (.cons rfl (.cons rfl (.single rfl))))
  exact ⟨_, _, hrun, airtime_le_windowCapMs hrun (by decide) 0, by decide⟩

end Interface
end Reticulum
