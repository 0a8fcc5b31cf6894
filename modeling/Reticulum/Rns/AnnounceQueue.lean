import Reticulum.Lib.StableQueue
import Reticulum.Rns.Airtime
import Mathlib.Data.List.TakeWhile

/-!
# The announce queue of an interface

Over any run of calls, what an interface has transmitted out of its queue and what it still holds
are the announces it accepted; the queue is served by hops and, among equals, in order of
acceptance; and a tick stops only at an empty queue or at the airtime cap.
-/

namespace Reticulum
namespace Interface
open StableQueue
variable {cfg : Config} {i i' : Interface} {now n : Nat} {wires : List Bytes}
  {rs : List (Rec Interface (Nat × Call))} {r : Rec Interface (Nat × Call)}

def QueueEntry.key (e : QueueEntry) : Nat := e.hops.toNat

/-- The announce that a step put into the queue. -/
def acceptedBy (r : Rec Interface (Nat × Call)) : List QueueEntry :=
  match r.act.2 with
  | .queueAnnounce wire hops => if (r.pre.queueAnnounce wire hops).1 then [⟨wire, hops⟩] else []
  | _ => []

/-- The announces for which `queue_announce` returned true, in order. -/
def accepted (rs : List (Rec Interface (Nat × Call))) : List QueueEntry := rs.flatMap acceptedBy

/-- Numbered announces: `a` has fewer hops, or as many and was accepted first. -/
def Precedes (a b : QueueEntry × Nat) : Prop :=
  a.1.hops < b.1.hops ∨ a.1.hops = b.1.hops ∧ a.2 < b.2

/-- Each announce that `r` transmits, of all transmitted, comes before those that were accepted
earlier than `r` and not transmitted up to that moment. -/
def ServesInOrder (transmitted : List (QueueEntry × Nat))
    (before : List (Rec Interface (Nat × Call))) (r : Rec Interface (Nat × Call)) : Prop :=
  ∀ k < (drained r).length, ∀ e, transmitted[(before.flatMap drained).length + k]? = some e →
    ∀ w ∈ (accepted before).zipIdx,
      w ∉ transmitted.take ((before.flatMap drained).length + k + 1) → Precedes e w

/-- The tick left nothing, or an announce that goes next and does not fit the budget. -/
def Exhausted (i : Interface) (now : Nat) : Prop :=
  i.queue = [] ∨ ∃ best rest, takeMin i.queue = some (best, rest) ∧
    (i.budgetAllows now (i.airtimeForBytes best.wire.length)).1 = false

theorem takeMin_eq_popMin (q : List QueueEntry) : takeMin q = popMin QueueEntry.key q := by
  induction q with
  | nil => rfl
  | cons e q ih =>
    rw [takeMin, popMin, ih]
    cases popMin QueueEntry.key q with
    | none => rfl
    | some p =>
      have hkey : p.1.hops < e.hops ↔ p.1.key < e.key := UInt8.lt_iff_toNat_lt
      exact if_congr hkey rfl rfl

theorem pops_of_drain (hd : drain now n i = (i', wires)) :
    ∃ picks, Pops QueueEntry.key i.queue picks i'.queue ∧ wires = picks.map QueueEntry.wire := by
  have hrounds := rounds_of_drain hd
  clear hd
  induction hrounds with
  | done => exact ⟨[], .done, rfl⟩
  | empty hq => exact ⟨[], .done, rfl⟩
  | full hq hfull => exact ⟨[], .done, rfl⟩
  | @sent n i i' pick rest wires hq hroom next ih =>
    obtain ⟨picks, hpops, rfl⟩ := ih
    rw [takeMin_eq_popMin] at hq
    exact ⟨pick :: picks, .pop hq hpops, rfl⟩

theorem pruneOldEmits_idem (i : Interface) (now : Nat) :
    (i.pruneOldEmits now).pruneOldEmits now = i.pruneOldEmits now := by
  have hidem : ∀ p : EmitRecord → Bool,
      (i.emits.dropWhile p).dropWhile p = i.emits.dropWhile p := by
    intro p
    exact List.dropWhile_eq_self_iff.mpr (List.dropWhile_get_zero_not p i.emits)
  exact congrArg (Interface.mk i.cfg i.queue) (hidem _)

theorem exhausted_of_drain (hn : i.queue.length ≤ n) (hd : drain now n i = (i', wires)) :
    i'.Exhausted now := by
  have hrounds := rounds_of_drain hd
  clear hd
  induction hrounds with
  | done => exact .inl (List.length_eq_zero_iff.mp (Nat.le_zero.mp hn))
  | empty hq =>
    rw [takeMin_eq_popMin] at hq
    exact .inl (popMin_eq_none.mp hq)
  | @full n i pick rest hq hfull =>
    refine .inr ⟨pick, rest, hq, ?_⟩
    -- the tick has pruned the records already
    simp only [budgetAllows, airtimeUsedMsInWindow, pruneOldEmits_idem]
    exact hfull
  | @sent n i i' pick rest wires hq hroom next ih =>
    have hlen := (takeMin_perm hq).length_eq
    rw [List.length_cons] at hlen
    have hrest : rest.length ≤ n := by omega
    exact ih hrest

/-- What a run has transmitted and what waits, numbered in order of acceptance. -/
structure Numbered (rs : List (Rec Interface (Nat × Call))) (i : Interface)
    (transmitted waiting : List (QueueEntry × Nat)) : Prop where
  transmitted_eq : transmitted.map (fun e => e.1.wire) = rs.flatMap drained
  waiting_eq : waiting.map Prod.fst = i.queue
  perm : (transmitted ++ waiting).Perm (accepted rs).zipIdx
  sorted : waiting.Pairwise fun a b => a.2 < b.2
  serves : Run.Throughout (ServesInOrder transmitted) rs

theorem accepted_snoc : accepted (rs ++ [r]) = accepted rs ++ acceptedBy r := by
  simp [accepted]

theorem drained_snoc : (rs ++ [r]).flatMap drained = rs.flatMap drained ++ drained r := by
  simp

theorem mem_of_numbered {transmitted waiting : List (QueueEntry × Nat)} {w : QueueEntry × Nat}
    (h : Numbered rs i transmitted waiting) (hw : w ∈ (accepted rs).zipIdx) :
    w ∈ transmitted ∨ w ∈ waiting := List.mem_append.mp (h.perm.mem_iff.mpr hw)

theorem length_transmitted {transmitted waiting : List (QueueEntry × Nat)}
    (h : Numbered rs i transmitted waiting) :
    transmitted.length = (rs.flatMap drained).length := by
  rw [← h.transmitted_eq, List.length_map]

/-- Later transmissions do not touch the order of the earlier ones. -/
theorem Numbered.serves_append {transmitted waiting more : List (QueueEntry × Nat)}
    (h : Numbered rs i transmitted waiting) :
    Run.Throughout (ServesInOrder (transmitted ++ more)) rs := by
  intro before r after hrs k hk e he w hw hlate
  have hlen := length_transmitted h
  have hlt : (before.flatMap drained).length + k + 1 ≤ transmitted.length := by
    rw [hlen, hrs, List.flatMap_append, List.flatMap_cons, List.length_append, List.length_append]
    omega
  rw [List.getElem?_append_left (by omega)] at he
  rw [List.take_append_of_le_length hlt] at hlate
  exact h.serves before r after hrs k hk e he w hw hlate

theorem numbered_new : Numbered [] (new cfg) [] [] :=
  ⟨rfl, rfl, .refl _, .nil, Run.throughout_nil⟩

/-- A step that transmits nothing serves in order. -/
theorem serves_of_drained_nil {transmitted : List (QueueEntry × Nat)} (h : drained r = []) :
    ServesInOrder transmitted rs r := by
  intro k hk
  rw [h] at hk
  cases hk

theorem Numbered.keep {transmitted waiting : List (QueueEntry × Nat)}
    (h : Numbered rs i transmitted waiting) (ha : acceptedBy r = []) (hd : drained r = [])
    (hq : r.post.queue = i.queue) : Numbered (rs ++ [r]) r.post transmitted waiting := by
  refine ⟨?_, ?_, ?_, h.sorted, ?_⟩
  · rw [drained_snoc, hd, List.append_nil, h.transmitted_eq]
  · rw [hq, h.waiting_eq]
  · rw [accepted_snoc, ha, List.append_nil]
    exact h.perm
  · exact Run.throughout_snoc.mpr ⟨h.serves, serves_of_drained_nil hd⟩

theorem Numbered.accept {transmitted waiting : List (QueueEntry × Nat)} {e : QueueEntry}
    (h : Numbered rs i transmitted waiting) (ha : acceptedBy r = [e]) (hd : drained r = [])
    (hq : r.post.queue = i.queue ++ [e]) :
    Numbered (rs ++ [r]) r.post transmitted (waiting ++ [(e, (accepted rs).length)]) := by
  refine ⟨?_, ?_, ?_, ?_, ?_⟩
  · rw [drained_snoc, hd, List.append_nil, h.transmitted_eq]
  · rw [hq, List.map_append, h.waiting_eq]
    rfl
  · rw [accepted_snoc, ha, List.zipIdx_append, ← List.append_assoc]
    simpa using h.perm.append_right _
  · -- the numbers given out so far are smaller
    refine List.pairwise_append.mpr ⟨h.sorted, List.pairwise_singleton _ _, ?_⟩
    intro a ha b hb
    rw [List.mem_singleton.mp hb]
    have hmem : a ∈ (accepted rs).zipIdx := h.perm.mem_iff.mp (List.mem_append_right _ ha)
    exact List.snd_lt_of_mem_zipIdx hmem
  · exact Run.throughout_snoc.mpr ⟨h.serves, serves_of_drained_nil hd⟩

theorem Numbered.tick {transmitted waiting : List (QueueEntry × Nat)}
    (h : Numbered rs r.pre transmitted waiting) (ha : acceptedBy r = [])
    (hd : Interface.drain now n r.pre = (r.post, drained r)) :
    ∃ transmitted' waiting', Numbered (rs ++ [r]) r.post transmitted' waiting' := by
  obtain ⟨picks, hpops, hwires⟩ := pops_of_drain hd
  rw [← h.waiting_eq] at hpops
  obtain ⟨numbered, waiting', hnumbered, rfl, hwaiting'⟩ := hpops.of_map
  have hsorted' := h.sorted.sublist hnumbered.sublist
  refine ⟨transmitted ++ numbered, waiting', ?_, hwaiting', ?_, hsorted', ?_⟩
  · rw [drained_snoc, hwires, List.map_append, h.transmitted_eq, List.map_map]
    rfl
  · rw [accepted_snoc, ha, List.append_nil, List.append_assoc]
    exact (hnumbered.perm.symm.append_left _).trans h.perm
  · refine Run.throughout_snoc.mpr ⟨h.serves_append, ?_⟩
    intro k hk e he w hw hlate
    have hlen := length_transmitted h
    rw [← hlen] at he hlate
    rw [List.getElem?_append_right (by omega), Nat.add_sub_cancel_left] at he
    rw [Nat.add_assoc, List.take_length_add_append, List.mem_append, not_or] at hlate
    have hw' : w ∈ waiting := (mem_of_numbered h hw).resolve_left hlate.1
    rcases hnumbered.before h.sorted he hw' hlate.2 with hlt | ⟨heq, hlt⟩
    · exact .inl (UInt8.lt_iff_toNat_lt.mpr hlt)
    · exact .inr ⟨UInt8.toNat_inj.mp heq, hlt⟩

theorem numbered_of_run (hrun : Run Calls (new cfg) rs i) :
    ∃ transmitted waiting, Numbered rs i transmitted waiting := by
  induction hrun with
  | nil => exact ⟨[], [], numbered_new⟩
  | @snoc rs s s' a _ hcalls ih =>
    obtain ⟨transmitted, waiting, h⟩ := ih
    obtain ⟨now, c⟩ := a
    obtain rfl : s' = (s.call now c).1 := hcalls
    cases c with
    | queueAnnounce wire hops =>
      by_cases hroom : s.cfg.maxQueuedAnnounces ≤ s.queue.length
      · refine ⟨_, _, h.keep ?_ rfl ?_⟩
        · simp [acceptedBy, queueAnnounce, hroom]
        · simp [call, queueAnnounce, hroom]
      · refine ⟨_, _, h.accept (e := ⟨wire, hops⟩) ?_ rfl ?_⟩
        · simp [acceptedBy, queueAnnounce, hroom]
        · simp [call, queueAnnounce, hroom]
    | transmitNow wire => exact ⟨_, _, h.keep rfl rfl rfl⟩
    | airtimeUsedMsInWindow => exact ⟨_, _, h.keep rfl rfl rfl⟩
    | tick =>
      have hdrained : s.drain now s.queue.length = s.tick now := rfl
      exact h.tick rfl hdrained

theorem drain_cfg (hd : drain now n i = (i', wires)) : i'.cfg = i.cfg := by
  have hrounds := rounds_of_drain hd
  clear hd
  induction hrounds with
  | done => rfl
  | empty hq => rfl
  | full hq hfull => rfl
  | sent hq hroom next ih => exact ih

/-- The queue respects its bound. -/
def Bounded (cfg : Config) (i : Interface) : Prop :=
  i.cfg = cfg ∧ i.queue.length ≤ cfg.maxQueuedAnnounces

theorem Bounded.call (h : Bounded cfg i) (now : Nat) (c : Call) :
    Bounded cfg (i.call now c).1 := by
  obtain ⟨hcfg, hlen⟩ := h
  cases c with
  | queueAnnounce wire hops =>
    by_cases hroom : i.cfg.maxQueuedAnnounces ≤ i.queue.length
    · have hrefused : (i.call now (.queueAnnounce wire hops)).1 = i := by
        simp [Interface.call, queueAnnounce, hroom]
      rw [hrefused]
      exact ⟨hcfg, hlen⟩
    · rw [hcfg] at hroom
      refine ⟨by simp [Interface.call, hcfg], ?_⟩
      simp only [Interface.call, queueAnnounce, hcfg, if_neg hroom, List.length_append,
        List.length_singleton]
      omega
  | transmitNow wire => exact ⟨hcfg, hlen⟩
  | airtimeUsedMsInWindow => exact ⟨hcfg, hlen⟩
  | tick =>
    have hd : drain now i.queue.length i = ((i.tick now).1, (i.tick now).2) := rfl
    obtain ⟨picks, hpops, -⟩ := pops_of_drain hd
    exact ⟨(drain_cfg hd).trans hcfg, hpops.sublist.length_le.trans hlen⟩

theorem bounded_of_run (hrun : Run Calls (new cfg) rs i) : Bounded cfg i := by
  refine hrun.inv (I := Bounded cfg) ⟨rfl, Nat.zero_le _⟩ ?_
  rintro s a _ hs rfl
  exact hs.call a.1 a.2

/-- The discipline of the announce queue, over every run of calls: what was transmitted out of it
and what it holds are the announces it accepted, each once; it never exceeds its bound; an announce
goes only before those with more hops or as many and accepted later; and a tick goes on until the
queue is empty or its best announce does not fit the budget. -/
theorem queue_discipline (hrun : Run Calls (new cfg) rs i) :
    (∃ transmitted waiting : List (QueueEntry × Nat),
      transmitted.map (fun e => e.1.wire) = rs.flatMap drained ∧
      waiting.map Prod.fst = i.queue ∧
      (transmitted ++ waiting).Perm (accepted rs).zipIdx ∧
      Run.Throughout (ServesInOrder transmitted) rs) ∧
    i.queue.length ≤ cfg.maxQueuedAnnounces ∧
    ∀ r ∈ rs, r.act.2 = .tick → r.post.Exhausted r.act.1 := by
  obtain ⟨transmitted, waiting, h⟩ := numbered_of_run hrun
  refine ⟨⟨transmitted, waiting, h.transmitted_eq, h.waiting_eq, h.perm, h.serves⟩,
    (bounded_of_run hrun).2, ?_⟩
  rintro ⟨pre, ⟨now, c⟩, post⟩ hr rfl
  obtain rfl : post = (pre.tick now).1 := hrun.step_of_mem hr
  exact exhausted_of_drain (n := pre.queue.length) le_rfl rfl

/-- Of three announces the one with most hops is still waiting when the airtime is used up, and the
other two went in the order in which they came. -/
theorem queue_discipline_ties : ∃ rs i, Run Calls (new ⟨8000, 100, 3, 1000, 500⟩) rs i ∧
    rs.flatMap drained = [List.replicate 40 1, List.replicate 40 2] ∧
    i.queue = [⟨List.replicate 40 0, 5⟩] ∧ i.Exhausted 7 := by
  let i₀ := new ⟨8000, 100, 3, 1000, 500⟩
  let i₁ := (i₀.call 0 (.queueAnnounce (List.replicate 40 0) 5)).1
  let i₂ := (i₁.call 1 (.queueAnnounce (List.replicate 40 1) 2)).1
  let i₃ := (i₂.call 2 (.queueAnnounce (List.replicate 40 2) 2)).1
  let i₄ := (i₃.call 7 .tick).1
  have hrun : Run Calls i₀ [⟨i₀, (0, .queueAnnounce (List.replicate 40 0) 5), i₁⟩,
      ⟨i₁, (1, .queueAnnounce (List.replicate 40 1) 2), i₂⟩,
      ⟨i₂, (2, .queueAnnounce (List.replicate 40 2) 2), i₃⟩, ⟨i₃, (7, .tick), i₄⟩] i₄ :=
    .cons rfl (.cons rfl (.cons rfl (.single rfl)))
  obtain ⟨-, -, hticks⟩ := queue_discipline hrun
  exact ⟨_, _, hrun, by decide, by decide, hticks ⟨i₃, (7, .tick), i₄⟩ (by simp) rfl⟩

end Interface
end Reticulum
