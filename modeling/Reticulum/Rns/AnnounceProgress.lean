import Reticulum.Rns.AnnounceQueue

/-!
# No announce starves

A queued announce waits only for those with no more hops than its own. Where each announce fits the
cap alone, it is on the air after as many ticks, each more than a window after the one before, as
there are announces of that rank, queued before it or after it. One that does not fit never goes
out, and neither does any with more hops that is queued with it.
-/

namespace Reticulum
namespace Interface
open StableQueue
variable {i i' : Interface} {now k last n : Nat} {c : Call} {wires : List Bytes}
  {r : Rec Interface (Nat × Call)} {rs : List (Rec Interface (Nat × Call))}

/-- How many announces of at most `k` hops there are. -/
def upTo (k : Nat) (q : List QueueEntry) : Nat := q.countP fun e => decide (e.key ≤ k)

/-- Alone in its window, the announce does not exceed the cap. -/
def Config.Fits (cfg : Config) (e : QueueEntry) : Prop :=
  e.wire.length * 8000 / cfg.bitrateBps ≤ cfg.windowCapMs

/-- `rs` has `n` ticks, each more than `W` after the one before it, the first more than `W` after
`last`. -/
def Paced (W : Nat) : Nat → Nat → List (Rec Interface (Nat × Call)) → Prop
  | 0, _, _ => True
  | n + 1, last, rs => ∃ seg r rest, rs = seg ++ r :: rest ∧ r.act.2 = .tick ∧ last + W < r.act.1 ∧
    Paced W n r.act.1 rest

theorem call_cfg (i : Interface) (now : Nat) (c : Call) : (i.call now c).1.cfg = i.cfg := by
  cases c with
  | queueAnnounce wire hops => exact queueAnnounce_cfg
  | tick => exact drain_cfg (n := i.queue.length) rfl
  | _ => rfl

/-- A call loses no entry: what it takes off the queue it transmits. -/
theorem perm_of_call (h : Calls r.pre r.act r.post) : ∃ picks,
    (r.pre.queue ++ acceptedBy r).Perm (picks ++ r.post.queue) ∧
      drained r = picks.map QueueEntry.wire ∧
      ∀ k, (∃ e ∈ r.post.queue, e.key ≤ k) →
        upTo k r.pre.queue + upTo k (acceptedBy r) = picks.length + upTo k r.post.queue := by
  obtain ⟨i, ⟨now, c⟩, i'⟩ := r
  obtain rfl : i' = (i.call now c).1 := h
  cases c with
  | queueAnnounce wire hops =>
    refine ⟨[], ?_, rfl, ?_⟩
    · by_cases hfull : i.cfg.maxQueuedAnnounces ≤ i.queue.length <;>
        simp [call, acceptedBy, queueAnnounce, hfull]
    · intro k _
      by_cases hfull : i.cfg.maxQueuedAnnounces ≤ i.queue.length <;>
        simp [call, acceptedBy, queueAnnounce, hfull, upTo]
  | tick =>
    obtain ⟨picks, hpops, hwires⟩ : ∃ picks,
        Pops QueueEntry.key i.queue picks (i.call now .tick).1.queue ∧
          (i.call now .tick).2 = picks.map QueueEntry.wire := pops_of_drain rfl
    refine ⟨picks, ?_, hwires, fun k hleft => hpops.countP_le hleft⟩
    rw [acceptedBy, List.append_nil]
    exact hpops.perm
  | _ => exact ⟨[], by simp [call, acceptedBy, airtimeUsedMsInWindow, pruneOldEmits], rfl,
      fun k _ => by simp [call, acceptedBy, upTo, airtimeUsedMsInWindow, pruneOldEmits]⟩

theorem mem_emits_of_rounds {e : EmitRecord} (h : Rounds now n i i' wires) (he : e ∈ i'.emits) :
    e ∈ i.emits ∨ e.whenMs = now ∧ wires ≠ [] := by
  induction h with
  | done => exact .inl he
  | empty _ => exact .inl he
  | full _ _ => exact .inl ((List.dropWhile_sublist _).subset he)
  | sent _ _ _ ih =>
    rcases ih he with he | ⟨he, -⟩
    · rcases List.mem_append.mp he with he | he
      · exact .inl ((List.dropWhile_sublist _).subset he)
      · rw [List.mem_singleton.mp he]
        exact .inr ⟨rfl, by simp⟩
    · exact .inr ⟨he, by simp⟩

/-- A record that a call adds is of an announce that it transmits. -/
theorem mem_emits_of_call {e : EmitRecord} (h : Calls r.pre r.act r.post) (he : e ∈ r.post.emits) :
    e ∈ r.pre.emits ∨ e.whenMs = r.act.1 ∧ drained r ≠ [] := by
  obtain ⟨i, ⟨now, c⟩, i'⟩ := r
  obtain rfl : i' = (i.call now c).1 := h
  cases c with
  | queueAnnounce wire hops => exact .inl (queueAnnounce_emits ▸ he)
  | transmitNow _ => exact .inl he
  | airtimeUsedMsInWindow => exact .inl ((List.dropWhile_sublist _).subset he)
  | tick =>
    have hrounds : Rounds now i.queue.length i (i.tick now).1 (i.tick now).2 :=
      rounds_of_drain rfl
    exact mem_emits_of_rounds hrounds he

/-- After a window without an announce, a tick transmits one. -/
theorem tick_transmits (hold : ∀ e ∈ i.emits, e.whenMs + i.cfg.airtimeWindowMs < now)
    (hfit : ∀ e ∈ i.queue, i.cfg.Fits e) (hq : i.queue ≠ []) : (i.tick now).2 ≠ [] := by
  have hpruned : (i.pruneOldEmits now).emits = [] := by
    refine List.dropWhile_eq_nil_iff.mpr ?_
    intro e he
    have hlt := hold e he
    rw [decide_eq_true_eq]
    split <;> omega
  have hrounds : Rounds now i.queue.length i (i.tick now).1 (i.tick now).2 := rounds_of_drain rfl
  intro hnone
  rw [hnone] at hrounds
  generalize (i.tick now).1 = i' at hrounds
  cases hlen : i.queue.length with
  | zero => exact hq (List.length_eq_zero_iff.mp hlen)
  | succ n =>
    rw [hlen] at hrounds
    cases hrounds with
    | empty hmin =>
      rw [takeMin_eq_popMin] at hmin
      exact hq (popMin_eq_none.mp hmin)
    | @full _ _ pick rest hmin hfull =>
      have hmem : pick ∈ i.queue := (takeMin_perm hmin).mem_iff.mpr List.mem_cons_self
      have hroom : i.airtimeForBytes pick.wire.length ≤ (i.pruneOldEmits now).windowCapMs := by
        rw [airtimeForBytes_eq]
        exact hfit pick hmem
      simp [budgetAllows, airtimeUsedMsInWindow, hpruned] at hfull
      omega

/-! ### Runs -/

theorem cfg_of_run (hrun : Run Calls i rs i') : i'.cfg = i.cfg := by
  refine hrun.inv (I := fun s => s.cfg = i.cfg) rfl ?_
  rintro s c _ hs rfl
  exact (call_cfg s c.1 c.2).trans hs

/-- An announce is kept until it is transmitted. -/
theorem kept_or_drained (hrun : Run Calls i rs i') {e : QueueEntry} (he : e ∈ i.queue) :
    e ∈ i'.queue ∨ e.wire ∈ rs.flatMap drained := by
  induction hrun with
  | nil => exact .inl he
  | @snoc rs s s' c _ hs ih =>
    rw [drained_snoc]
    rcases ih with hmem | hsent
    · obtain ⟨picks, hperm, hwires, -⟩ := perm_of_call (r := ⟨s, c, s'⟩) hs
      rcases List.mem_append.mp (hperm.subset (List.mem_append_left _ hmem)) with hpick | hkept
      · exact .inr (List.mem_append_right _ (hwires ▸ List.mem_map_of_mem hpick))
      · exact .inl hkept
    · exact .inr (List.mem_append_left _ hsent)

theorem mem_of_run (hrun : Run Calls i rs i') {e : QueueEntry} (he : e ∈ i'.queue) :
    e ∈ i.queue ++ accepted rs := by
  induction hrun with
  | nil => exact List.mem_append_left _ he
  | @snoc rs s s' c _ hs ih =>
    obtain ⟨picks, hperm, -, -⟩ := perm_of_call (r := ⟨s, c, s'⟩) hs
    rw [accepted_snoc, ← List.append_assoc]
    rcases List.mem_append.mp (hperm.symm.subset (List.mem_append_right _ he)) with hold | hnew
    · exact List.mem_append_left _ (ih hold)
    · exact List.mem_append_right _ hnew

/-- While announces of a rank wait, only such announces leave the queue. -/
theorem upTo_of_run (hrun : Run Calls i rs i')
    (hlow : ∀ r ∈ rs, ∃ e ∈ r.post.queue, e.key ≤ k) :
    upTo k i.queue + upTo k (accepted rs) = (rs.flatMap drained).length + upTo k i'.queue := by
  induction hrun with
  | nil => simp [accepted, upTo]
  | @snoc rs s s' c _ hs ih =>
    have hprev := ih fun r hr => hlow r (List.mem_append_left _ hr)
    obtain ⟨picks, -, hwires, hcount⟩ := perm_of_call (r := ⟨s, c, s'⟩) hs
    have hstep := hcount k (hlow ⟨s, c, s'⟩ (by simp))
    have hadd : upTo k (accepted (rs ++ [⟨s, c, s'⟩])) =
        upTo k (accepted rs) + upTo k (acceptedBy ⟨s, c, s'⟩) := by
      rw [accepted_snoc, upTo, List.countP_append]
      rfl
    rw [hadd, drained_snoc, List.length_append, hwires, List.length_map]
    dsimp only at hstep
    omega

/-- The records are from before the run or of its calls; where it transmits nothing, from before. -/
theorem mem_emits_of_run {e : EmitRecord} (hrun : Run Calls i rs i') (he : e ∈ i'.emits) :
    e ∈ i.emits ∨ (∃ r ∈ rs, e.whenMs = r.act.1) ∧ rs.flatMap drained ≠ [] := by
  induction hrun with
  | nil => exact .inl he
  | @snoc rs s s' c _ hs ih =>
    rw [drained_snoc]
    rcases mem_emits_of_call (r := ⟨s, c, s'⟩) hs he with hold | ⟨hnow, hsent⟩
    · rcases ih hold with hfirst | ⟨⟨r, hr, hwhen⟩, hsent⟩
      · exact .inl hfirst
      · exact .inr ⟨⟨r, List.mem_append_left _ hr, hwhen⟩,
          fun hnil => hsent (List.append_eq_nil_iff.mp hnil).1⟩
    · exact .inr ⟨⟨_, by simp, hnow⟩, fun hnil => hsent (List.append_eq_nil_iff.mp hnil).2⟩

/-- A run with `n` paced ticks in which the queue is never empty transmits `n` announces. -/
theorem le_length_drained (hrun : Run Calls i rs i')
    (hfit : ∀ e ∈ i.queue ++ accepted rs, i.cfg.Fits e) (hemits : ∀ e ∈ i.emits, e.whenMs ≤ last)
    (htimes : (rs.map fun r => r.act.1).Pairwise (· ≤ ·))
    (hpaced : Paced i.cfg.airtimeWindowMs n last rs) (hq : i.queue ≠ [])
    (hqs : ∀ r ∈ rs, r.post.queue ≠ []) : n ≤ (rs.flatMap drained).length := by
  induction n generalizing i rs last with
  | zero => exact Nat.zero_le _
  | succ n ih =>
    obtain ⟨seg, r, rest, rfl, htick, hlate, hrest⟩ := hpaced
    obtain ⟨hseg, hr, hafter⟩ := hrun.split_at
    rw [List.map_append, List.map_cons, List.pairwise_append, List.pairwise_cons] at htimes
    obtain ⟨-, ⟨-, htimes'⟩, hbefore⟩ := htimes
    have hrunTo : Run Calls i (seg ++ [r]) r.post := hseg.append (.single hr)
    have hacc : accepted (seg ++ r :: rest) = accepted seg ++ (acceptedBy r ++ accepted rest) := by
      simp [accepted]
    have hpre : r.pre.queue ≠ [] := hseg.inv_of (I := fun s => s.queue ≠ []) hq
      (fun r' hr' => hqs r' (List.mem_append_left _ hr')) fun _ _ _ _ _ hne => hne
    have hcfg : r.pre.cfg = i.cfg := cfg_of_run hseg
    have hcfg' : r.post.cfg = i.cfg := cfg_of_run hrunTo
    have hprefit : ∀ e ∈ r.pre.queue, r.pre.cfg.Fits e := by
      intro e he
      rw [hcfg]
      refine hfit e ?_
      rw [hacc, ← List.append_assoc]
      exact List.mem_append_left _ (mem_of_run hseg he)
    -- either the calls before the tick have transmitted something or the tick does
    have hone : 1 ≤ (seg.flatMap drained).length + (drained r).length := by
      by_cases hsent : seg.flatMap drained = []
      · have hold : ∀ e ∈ r.pre.emits, e.whenMs + r.pre.cfg.airtimeWindowMs < r.act.1 := by
          intro e he
          rcases mem_emits_of_run hseg he with he | ⟨-, hsent'⟩
          · have hle := hemits e he
            rw [hcfg]
            omega
          · exact absurd hsent hsent'
        have hwires : drained r ≠ [] := by
          rw [drained, htick]
          exact tick_transmits hold hprefit hpre
        have hpos := List.length_pos_iff.mpr hwires
        omega
      · have hpos := List.length_pos_iff.mpr hsent
        omega
    have hrestfit : ∀ e ∈ r.post.queue ++ accepted rest, r.post.cfg.Fits e := by
      intro e he
      rw [hcfg']
      refine hfit e ?_
      rw [hacc, ← List.append_assoc, ← List.append_assoc]
      rcases List.mem_append.mp he with he | he
      · have hmem := mem_of_run hrunTo he
        rw [accepted_snoc, ← List.append_assoc] at hmem
        exact List.mem_append_left _ hmem
      · exact List.mem_append_right _ he
    have hrestemits : ∀ e ∈ r.post.emits, e.whenMs ≤ r.act.1 := by
      intro e he
      rcases mem_emits_of_run hrunTo he with he | ⟨⟨r', hr', hwhen⟩, -⟩
      · have hle := hemits e he
        omega
      · rw [hwhen]
        rcases List.mem_append.mp hr' with hr' | hr'
        · exact hbefore _ (List.mem_map_of_mem hr') _ List.mem_cons_self
        · rw [List.mem_singleton.mp hr']
    have hrest' : n ≤ (rest.flatMap drained).length :=
      ih hafter hrestfit hrestemits htimes' (hcfg' ▸ hrest) (hqs r (by simp)) fun r' hr' =>
        hqs r' (List.mem_append_right _ (List.mem_cons_of_mem _ hr'))
    rw [List.flatMap_append, List.flatMap_cons, List.length_append, List.length_append]
    omega

theorem mem_drained_of_fits (hrun : Run Calls i rs i')
    (hfit : ∀ e ∈ i.queue ++ accepted rs, i.cfg.Fits e) (hemits : ∀ e ∈ i.emits, e.whenMs ≤ last)
    (htimes : (rs.map fun r => r.act.1).Pairwise (· ≤ ·))
    (hpaced : Paced i.cfg.airtimeWindowMs n last rs)
    (hn : upTo k i.queue + upTo k (accepted rs) ≤ n) :
    ∀ e ∈ i.queue, e.key ≤ k → e.wire ∈ rs.flatMap drained := by
  intro e he hk
  by_cases hlow : ∀ r ∈ rs, ∃ e ∈ r.post.queue, e.key ≤ k
  · have hlen := le_length_drained hrun hfit hemits htimes hpaced (List.ne_nil_of_mem he)
      fun r hr => by
        obtain ⟨e', he', -⟩ := hlow r hr
        exact List.ne_nil_of_mem he'
    have hcount := upTo_of_run hrun hlow
    have hend : ∃ e ∈ i'.queue, e.key ≤ k :=
      hrun.inv_of (I := fun s => ∃ e ∈ s.queue, e.key ≤ k) ⟨e, he, hk⟩ hlow fun _ _ _ _ _ hl => hl
    obtain ⟨e', he', hk'⟩ := hend
    have hpos : 0 < upTo k i'.queue := List.countP_pos_iff.mpr ⟨e', he', decide_eq_true hk'⟩
    omega
  · obtain ⟨r, hr, hnone⟩ : ∃ r ∈ rs, ¬∃ e ∈ r.post.queue, e.key ≤ k := by
      simpa using hlow
    obtain ⟨before, after, rfl⟩ := List.append_of_mem hr
    obtain ⟨hbefore, hs, -⟩ := hrun.split_at
    rcases kept_or_drained (hbefore.append (.single hs)) he with hkept | hsent
    · exact absurd ⟨e, hkept, hk⟩ hnone
    · rw [List.flatMap_append, List.flatMap_singleton] at hsent
      rw [List.flatMap_append, List.flatMap_cons, ← List.append_assoc]
      exact List.mem_append_left _ hsent

/-! ### Announces that do not fit -/

/-- What a round transmits fits and has no more hops than the rest of the queue. -/
theorem mem_queue_of_rounds {e e' : QueueEntry} (h : Rounds now n i i' wires) (he : e ∈ i.queue)
    (hun : ¬i.cfg.Fits e) (he' : e' ∈ i.queue) (hbehind : e' = e ∨ e.key < e'.key) :
    e ∈ i'.queue ∧ e' ∈ i'.queue := by
  induction h with
  | done => exact ⟨he, he'⟩
  | empty _ => exact ⟨he, he'⟩
  | full _ _ => exact ⟨he, he'⟩
  | @sent n i i' pick rest wires hq hroom next ih =>
    have hne : e ≠ pick := by
      rintro rfl
      refine hun ?_
      rw [Config.Fits, ← airtimeForBytes_eq]
      have hle := of_decide_eq_true hroom
      exact le_trans (Nat.le_add_left _ _) hle
    have hperm := takeMin_perm hq
    have hrest : e ∈ rest := (List.mem_cons.mp (hperm.subset he)).resolve_left hne
    rw [takeMin_eq_popMin] at hq
    have hle := popMin_le hq e hrest
    have hne' : e' ≠ pick := by
      rintro rfl
      rcases hbehind with rfl | hlt
      · exact hne rfl
      · omega
    have hrest' : e' ∈ rest := (List.mem_cons.mp (hperm.subset he')).resolve_left hne'
    exact ih hrest hun hrest'

theorem mem_queue_of_not_fits (hrun : Run Calls i rs i') {e e' : QueueEntry} (he : e ∈ i.queue)
    (hun : ¬i.cfg.Fits e) (he' : e' ∈ i.queue) (hbehind : e' = e ∨ e.key < e'.key) :
    e' ∈ i'.queue := by
  refine And.right (a := e ∈ i'.queue) ?_
  induction hrun with
  | nil => exact ⟨he, he'⟩
  | @snoc rs s s' c hbefore hs ih =>
    obtain ⟨hmem, hmem'⟩ := ih
    rw [← cfg_of_run hbefore] at hun
    obtain ⟨now, c⟩ := c
    obtain rfl : s' = (s.call now c).1 := hs
    cases c with
    | queueAnnounce wire hops =>
      by_cases hfull : s.cfg.maxQueuedAnnounces ≤ s.queue.length <;>
        simp [call, queueAnnounce, hfull, hmem, hmem']
    | transmitNow _ => exact ⟨hmem, hmem'⟩
    | airtimeUsedMsInWindow => exact ⟨hmem, hmem'⟩
    | tick =>
      have hrounds : Rounds now s.queue.length s (s.tick now).1 (s.tick now).2 :=
        rounds_of_drain rfl
      exact mem_queue_of_rounds hrounds hmem hun hmem' hbehind

/-- No announce starves: if all fit, those of at most `k` hops are out after as many paced ticks as
there are, whatever else is queued meanwhile; an announce that does not fit stays for ever and keeps
those with more hops. -/
theorem announces_go_out (hrun : Run Calls i rs i') :
    ((∀ e ∈ i.queue ++ accepted rs, i.cfg.Fits e) → ∀ last n k,
      (∀ e ∈ i.emits, e.whenMs ≤ last) → (rs.map fun r => r.act.1).Pairwise (· ≤ ·) →
      Paced i.cfg.airtimeWindowMs n last rs → upTo k i.queue + upTo k (accepted rs) ≤ n →
      ∀ e ∈ i.queue, e.key ≤ k → e.wire ∈ rs.flatMap drained) ∧
    ∀ e ∈ i.queue, ¬i.cfg.Fits e →
      ∀ e' ∈ i.queue, e' = e ∨ e.key < e'.key → e' ∈ i'.queue :=
  ⟨fun hfit _ _ _ hemits htimes hpaced hn => mem_drained_of_fits hrun hfit hemits htimes hpaced hn,
    fun _ he hun _ he' hbehind => mem_queue_of_not_fits hrun he hun he' hbehind⟩

/-- Three announces of 40 ms, where the cap is 100 ms in a second. -/
def threeQueued : Interface where
  cfg := ⟨8000, 100, 3, 1000, 500⟩
  queue := [⟨List.replicate 40 0, 5⟩, ⟨List.replicate 40 1, 2⟩, ⟨List.replicate 40 2, 2⟩]
  emits := []

/-- The one with most hops goes out too. -/
theorem announces_go_out_last : ∃ rs i', Run Calls threeQueued rs i' ∧
    List.replicate 40 0 ∈ rs.flatMap drained := by
  let a := (threeQueued.tick 2000).1
  let b := (a.tick 4000).1
  let c := (b.tick 6000).1
  have hrun : Run Calls threeQueued [⟨threeQueued, (2000, .tick), a⟩, ⟨a, (4000, .tick), b⟩,
      ⟨b, (6000, .tick), c⟩] c := .cons rfl (.cons rfl (.single rfl))
  have hpaced : Paced 1000 3 0 [⟨threeQueued, (2000, .tick), a⟩, ⟨a, (4000, .tick), b⟩,
      ⟨b, (6000, .tick), c⟩] :=
    ⟨[], _, _, rfl, rfl, by decide, [], _, _, rfl, rfl, by decide, [], _, _, rfl, rfl, by decide,
      trivial⟩
  obtain ⟨hout, -⟩ := announces_go_out hrun
  have hfit : ∀ e ∈ threeQueued.queue ++ accepted [⟨threeQueued, (2000, .tick), a⟩,
      ⟨a, (4000, .tick), b⟩, ⟨b, (6000, .tick), c⟩], threeQueued.cfg.Fits e := by
    simp [threeQueued, accepted, acceptedBy, Config.Fits]
  refine ⟨_, _, hrun, hout hfit 0 3 5 (by simp [threeQueued]) (by simp) hpaced (by decide)
    ⟨List.replicate 40 0, 5⟩ (by simp [threeQueued]) (by decide)⟩

end Interface
end Reticulum
