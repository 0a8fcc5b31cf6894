import Reticulum.Rns.Bytes

/-!
# Interfaces (`rns/Interface`)

An interface queues announces and drains them under an airtime cap; everything else goes out at
once. Handing bytes to the medium (`on_transmit`) is the output of `tick`.
-/

namespace Reticulum

/-- Names an `Interface` object. An `Interface*` is an `Option IfaceId`, with `none` for null. -/
abbrev IfaceId := Nat

namespace Interface

/-- `Config`, with `windowCapMs` the value of `window_cap_ms()`, which the source computes from
`announce_cap_pct` and the window in floating point. -/
structure Config where
  bitrateBps : Nat
  windowCapMs : Nat
  maxQueuedAnnounces : Nat
  airtimeWindowMs : Nat
  hwMtuBytes : Nat
deriving DecidableEq

structure QueueEntry where
  wire : Bytes
  hops : UInt8
deriving DecidableEq

structure EmitRecord where
  whenMs : Nat
  airtimeMs : Nat
deriving DecidableEq

end Interface

structure Interface where
  cfg : Interface.Config
  queue : List Interface.QueueEntry
  emits : List Interface.EmitRecord

namespace Interface

def new (cfg : Config) : Interface := ⟨cfg, [], []⟩

def hwMtuBytes (i : Interface) : Nat := i.cfg.hwMtuBytes

/-- `queue_announce`: whether there was room, and the interface after it. -/
def queueAnnounce (i : Interface) (wire : Bytes) (hops : UInt8) : Bool × Interface :=
  if i.cfg.maxQueuedAnnounces ≤ i.queue.length then (false, i)
  else (true, { i with queue := i.queue ++ [⟨wire, hops⟩] })

def airtimeForBytes (i : Interface) (nBytes : Nat) : Nat :=
  if i.cfg.bitrateBps = 0 then 0 else nBytes * 8000 / i.cfg.bitrateBps

def windowCapMs (i : Interface) : Nat := i.cfg.windowCapMs

def pruneOldEmits (i : Interface) (nowMs : Nat) : Interface :=
  let cutoff := if nowMs > i.cfg.airtimeWindowMs then nowMs - i.cfg.airtimeWindowMs else 0
  { i with emits := i.emits.dropWhile fun e => decide (e.whenMs < cutoff) }

def airtimeUsedMsInWindow (i : Interface) (nowMs : Nat) : Nat × Interface :=
  let i := i.pruneOldEmits nowMs
  ((i.emits.map EmitRecord.airtimeMs).sum, i)

def budgetAllows (i : Interface) (nowMs neededMs : Nat) : Bool × Interface :=
  let (used, i) := i.airtimeUsedMsInWindow nowMs
  (decide (used + neededMs ≤ i.windowCapMs), i)

/-- `std::min_element` by hops (the first of the smallest), and the queue with it erased. -/
def takeMin : List QueueEntry → Option (QueueEntry × List QueueEntry)
  | [] => none
  | e :: rest =>
    match takeMin rest with
    | none => some (e, [])
    | some (m, rest') => if m.hops < e.hops then some (m, e :: rest') else some (e, rest)

/-- At most `n` rounds of the loop of `tick`, with the wires they transmit in order. -/
def drain (nowMs : Nat) : Nat → Interface → Interface × List Bytes
  | 0, i => (i, [])
  | n + 1, i =>
    match takeMin i.queue with
    | none => (i, [])
    | some (pick, rest) =>
      let needed := i.airtimeForBytes pick.wire.length
      let (allowed, i) := i.budgetAllows nowMs needed
      if !allowed then (i, [])
      else
        let (i', wires) :=
          drain nowMs n { i with queue := rest, emits := i.emits ++ [⟨nowMs, needed⟩] }
        (i', pick.wire :: wires)

/-- `tick`. Each round takes one entry off the queue, so its length bounds the rounds. -/
def tick (i : Interface) (nowMs : Nat) : Interface × List Bytes := drain nowMs i.queue.length i

theorem takeMin_perm : ∀ {q : List QueueEntry} {m : QueueEntry} {rest : List QueueEntry},
    takeMin q = some (m, rest) → q.Perm (m :: rest)
  | [], _, _, h => by simp [takeMin] at h
  | e :: q, m, rest, h => by
    unfold takeMin at h
    cases hq : takeMin q with
    | none =>
      rw [hq] at h
      obtain ⟨rfl, rfl⟩ := Prod.mk.inj (Option.some.inj h)
      cases q with
      | nil => exact .refl _
      | cons e' q' =>
        unfold takeMin at hq
        split at hq
        · cases hq
        · split at hq <;> cases hq
    | some mr =>
      obtain ⟨m', rest'⟩ := mr
      rw [hq] at h
      simp only at h
      split at h <;> obtain ⟨rfl, rfl⟩ := Prod.mk.inj (Option.some.inj h)
      · exact ((takeMin_perm hq).cons e).trans (.swap _ _ _)
      · exact .refl _

/-- What the rounds can do: at most `n` of them take `i` to `i'` and transmit `wires`. -/
inductive Rounds (now : Nat) : Nat → Interface → Interface → List Bytes → Prop
  | done {i : Interface} : Rounds now 0 i i []
  | empty {n : Nat} {i : Interface} (hq : takeMin i.queue = none) : Rounds now (n + 1) i i []
  | full {n : Nat} {i : Interface} {pick : QueueEntry} {rest : List QueueEntry}
    (hq : takeMin i.queue = some (pick, rest))
    (hfull : (i.budgetAllows now (i.airtimeForBytes pick.wire.length)).1 = false) :
    Rounds now (n + 1) i (i.pruneOldEmits now) []
  | sent {n : Nat} {i i' : Interface} {pick : QueueEntry} {rest : List QueueEntry}
    {wires : List Bytes} (hq : takeMin i.queue = some (pick, rest))
    (hroom : (i.budgetAllows now (i.airtimeForBytes pick.wire.length)).1 = true)
    (next : Rounds now n
      { i.pruneOldEmits now with
        queue := rest
        emits := (i.pruneOldEmits now).emits ++ [⟨now, i.airtimeForBytes pick.wire.length⟩] }
      i' wires) :
    Rounds now (n + 1) i i' (pick.wire :: wires)

theorem rounds_of_drain {now n : Nat} {i i' : Interface} {wires : List Bytes}
    (h : drain now n i = (i', wires)) : Rounds now n i i' wires := by
  induction n generalizing i i' wires with
  | zero =>
    obtain ⟨rfl, rfl⟩ := Prod.mk.inj h
    exact .done
  | succ n ih =>
    unfold drain at h
    cases hq : takeMin i.queue with
    | none =>
      rw [hq] at h
      obtain ⟨rfl, rfl⟩ := Prod.mk.inj h
      exact .empty hq
    | some mr =>
      obtain ⟨pick, rest⟩ := mr
      rw [hq] at h
      rcases ite_eq_iff.mp h with ⟨hfull, h⟩ | ⟨hroom, h⟩
      · obtain ⟨rfl, rfl⟩ := Prod.mk.inj h
        exact .full hq ((Bool.not_eq_true' _).mp hfull)
      · generalize hrec : drain now n _ = p at h
        obtain ⟨i'', wires'⟩ := p
        obtain ⟨rfl, rfl⟩ := Prod.mk.inj h
        rw [Bool.not_eq_true', Bool.not_eq_false] at hroom
        exact .sent hq hroom (ih hrec)

end Interface
end Reticulum
