import Reticulum.Rns.Transport.Handing
import Reticulum.Rns.Transport.Responses
import Reticulum.Rns.Transport.Suppression

/-!
# Every announce is rebroadcast once

An announce is put into the announce table only when its random hash is not in the window of its
destination, and is then recorded there. So between two such puts of one announce the window has
slid by 32, or the path with its window has been evicted. A tick takes what is due out of the table
and hands it to every interface: what is put once is handed over once.
-/

namespace Reticulum

section
variable [CryptoLib]

/-- The destination and the random hash that a wire announces. -/
def announced (wire : Bytes) : Option (Bytes × Bytes) :=
  match Packet.fromWireBytes wire with
  | .error _ => none
  | .ok p => (Identity.validateAnnounce p).map fun va => (va.destinationHash, va.randomHash)

/-- The event hands an announce `(d, r)` to the interface `i`. -/
def Event.handsOver (i : IfaceId) (d r : Bytes) : Event → Bool
  | .queueAnnounce j wire _ _ => decide (j = i ∧ announced wire = some (d, r))
  | _ => false

theorem Event.queues_of_handsOver {e : Event} {i : IfaceId} {d r : Bytes}
    (h : e.handsOver i d r = true) : e.queues = true := by
  cases e with
  | queueAnnounce j wire hops accepted => rfl
  | _ => cases h

theorem countP_handsOver_eq_zero {o : List Event} (h : ∀ e ∈ o, e.queues = false) (i : IfaceId)
    (d r : Bytes) : o.countP (Event.handsOver i d r) = 0 := by
  rw [List.countP_eq_zero]
  intro e he hover
  exact absurd ((h e he).symm.trans (Event.queues_of_handsOver hover)) (by simp)

def AnnounceEntry.announces (d r : Bytes) (e : AnnounceEntry) : Bool :=
  decide (announced e.announceWire = some (d, r))

namespace Transport

/-! ### Ticks -/

/-- Every entry goes once to every registration of an interface. -/
theorem countP_handings (is : List IfaceId) (due : List AnnounceEntry) (i : IfaceId)
    (d r : Bytes) :
    (handings is due).countP (fun x => decide (x.1 = i ∧ announced x.2.1 = some (d, r))) =
      due.countP (AnnounceEntry.announces d r) * is.count i := by
  induction due with
  | nil => simp [handings]
  | cons e due ih =>
    have hcons : handings is (e :: due) =
        (is.map fun j => (j, e.announceWire, e.announceHops)) ++ handings is due := rfl
    rw [hcons, List.countP_append, ih, List.countP_map, List.countP_cons, Nat.add_mul,
      Nat.add_comm]
    congr 1
    cases ha : e.announces d r with
    | false =>
      have hnot : announced e.announceWire ≠ some (d, r) := of_decide_eq_false ha
      simp [Function.comp_def, hnot]
    | true =>
      have hyes : announced e.announceWire = some (d, r) := of_decide_eq_true ha
      simp [Function.comp_def, hyes, List.count, beq_eq_decide]

/-- What a tick hands over, and what it leaves. -/
theorem tick_handsOver {t t' : Transport} {now : Nat} (h : t.step (.tick now) = .ok t')
    (i : IfaceId) (d r : Bytes) : t'.out.countP (Event.handsOver i d r) =
      (t.announceTable.popDue now).1.countP (AnnounceEntry.announces d r) *
        t.interfaces.count i := by
  have hover : Event.handsOver i d r = fun e =>
      (e.handed.map fun x => decide (x.1 = i ∧ announced x.2.1 = some (d, r))).getD false := by
    funext e
    cases e with
    | queueAnnounce j wire hops accepted => rfl
    | _ => rfl
  rw [hover, ← List.countP_filterMap, (tick_spec h).1, countP_handings]

/-! ### Other calls -/

section
variable {t t' : Transport} {a : Action} {i : IfaceId} {wire : Bytes} {p : Packet} {now : Nat}

omit [CryptoLib] in
theorem pathEvents_quiet (va : ValidatedAnnounce) : ∀ e ∈ t.pathEvents va p now ++
    (List.range t.announceHandlers).map (fun _ => Event.announceHandler va i),
    e.queues = false := by
  intro e he
  rcases of_mem_announceEvents he with ⟨u, rfl, -, -⟩ | rfl
  · rfl
  · rfl

omit [CryptoLib] in
theorem Answers.quiet {o : List Event} (h : Answers t i p o) : ∀ e ∈ o, e.queues = false := by
  intro e he
  cases h with
  | silent => cases he
  | own w _ => rw [List.mem_singleton.mp he]; rfl
  | fromTable e' _ => rw [List.mem_singleton.mp he]; rfl
  | passOn _ =>
    obtain ⟨j, -, rfl⟩ := List.mem_map.mp he
    rfl

/-- The call takes in an announce that the node passes on. -/
structure Takes (t : Transport) (i : IfaceId) (wire : Bytes) (now : Nat) (p : Packet)
    (va : ValidatedAnnounce) : Prop where
  arrives : arriving wire = some p
  unseen : t.hasSeen p = false
  accepts : t.accepts p = some va
  transportEnabled : t.transportEnabled = true
  context : p.context ≠ contextPathResponse
  fresh : va.randomHash ∉ t.blobs va.destinationHash

theorem handleAnnounce_queue (hw : arriving wire = some p) (hs : t.hasSeen p = false)
    (h : (seen { t with out := [] } p).handleAnnounce i p now = .ok t') :
    (∀ e ∈ t'.out, e.queues = false) ∧
    ((t'.announceTable = t.announceTable ∧
        t'.stats .announcesQueued = t.stats .announcesQueued) ∨
      ∃ va, Takes t i wire now p va ∧
        t'.announceTable = t.announceTable.put (t.queuedAnnounce va i p now) ∧
        t'.stats .announcesQueued = t.stats .announcesQueued + 1) := by
  have hseen : (seen { t with out := [] } p).stats .announcesQueued = t.stats .announcesQueued :=
    seen_stats (.inr (.inr rfl)) _ p
  cases ha : t.accepts p with
  | none =>
    obtain ⟨-, hstats⟩ :=
      handleAnnounce_stats_of_accepts_none (t := seen { t with out := [] } p) ha h
    have hcount := (hstats .announcesQueued (.inr (.inr rfl)) (by decide)).trans hseen
    obtain ⟨s, hs'⟩ := handleAnnounce_of_accepts_none (t := seen { t with out := [] } p) i now ha
    cases hs'.symm.trans h
    exact ⟨by simp [seen, count], .inl ⟨rfl, hcount⟩⟩
  | some va =>
    obtain ⟨s, hstats, heq⟩ := handleAnnounce_takeIn (t := seen { t with out := [] } p) i now ha
    cases heq.symm.trans h
    have hcount := hstats .announcesQueued (by decide)
    rw [hseen, if_neg (by decide), if_neg (fun hr => by cases hr.1), Nat.add_zero] at hcount
    have hcond : ((t.learnedPaths va i p now).noteRandomBlob va.destinationHash va.randomHash).1 =
        decide (va.randomHash ∉ t.blobs va.destinationHash) := noteRandomBlob_learnedPaths
    refine ⟨pathEvents_quiet (t := t) (i := i) (p := p) va, ?_⟩
    by_cases hpass : t.transportEnabled ∧ p.context ≠ contextPathResponse ∧
        ((t.learnedPaths va i p now).noteRandomBlob va.destinationHash va.randomHash).1
    · refine .inr ⟨va, ⟨hw, hs, ha, hpass.1, hpass.2.1, ?_⟩, if_pos hpass, ?_⟩
      · have hnew := hpass.2.2
        rw [hcond] at hnew
        exact of_decide_eq_true hnew
      · rw [if_pos ⟨rfl, hpass⟩] at hcount
        exact hcount
    · refine .inl ⟨if_neg hpass, ?_⟩
      rw [if_neg (fun hr => hpass hr.2)] at hcount
      exact hcount

/-- What a call to `inbound` does to the announces that wait for rebroadcast. -/
theorem inbound_queue (h : t.step (.inbound i wire now) = .ok t') :
    (∀ e ∈ t'.out, e.queues = false) ∧
    ((t'.announceTable = t.announceTable ∧
        t'.stats .announcesQueued = t.stats .announcesQueued) ∨
      ∃ p va, Takes t i wire now p va ∧
        t'.announceTable = t.announceTable.put (t.queuedAnnounce va i p now) ∧
        t'.stats .announcesQueued = t.stats .announcesQueued + 1) := by
  by_cases hann : ∃ p, arriving wire = some p ∧ t.hasSeen p = false ∧ p.handler = .announce
  · obtain ⟨p, hw, hs, hk⟩ := hann
    rw [step_inbound_announce hw hs hk] at h
    obtain ⟨hq, hcase⟩ := handleAnnounce_queue hw hs h
    exact ⟨hq, hcase.imp id fun ⟨va, hva⟩ => ⟨p, va, hva⟩⟩
  have hcount : t'.stats .announcesQueued = t.stats .announcesQueued := by
    rcases inbound_stats (t := { t with out := [] }) (.inr (.inr rfl)) h with hsame | hnew
    · exact hsame
    · obtain ⟨p, hw, hs, hk, -⟩ := hnew
      exact absurd ⟨p, hw, hs, hk⟩ hann
  cases step_did h with
  | apart ha _ => cases ha
  | dropped _ => exact ⟨by simp, .inl ⟨rfl, hcount⟩⟩
  | @took _ _ _ p _ hw hs hh =>
    cases hh with
    | ignored _ => exact ⟨by simp, .inl ⟨rfl, hcount⟩⟩
    | announce hk _ _ => exact absurd ⟨p, hw, hs, hk⟩ hann
    | pathRequest hk _ =>
      exact ⟨(out_of_pathRequest h hw hs hk).quiet, .inl ⟨rfl, hcount⟩⟩
    | data _ _ => exact ⟨by simp [Event.queues], .inl ⟨rfl, hcount⟩⟩
    | linkRequest _ _ => exact ⟨by simp [Event.queues], .inl ⟨rfl, hcount⟩⟩
    | proof _ _ =>
      refine ⟨?_, .inl ⟨rfl, hcount⟩⟩
      intro e he
      obtain ⟨f, -, rfl⟩ := List.mem_map.mp he
      rfl
    | linkProof _ _ => exact ⟨by simp [Event.queues], .inl ⟨rfl, hcount⟩⟩
    | linkData _ _ => exact ⟨by simp [Event.queues], .inl ⟨rfl, hcount⟩⟩

/-- The other calls hand nothing over. -/
theorem local_queue (ha : a.isLocal = true) (h : t.step a = .ok t') :
    (∀ e ∈ t'.out, e.queues = false) ∧ ∃ js, t'.interfaces = t.interfaces ++ js := by
  cases a with
  | inbound => cases ha
  | tick => cases ha
  | registerInterface j =>
    cases h
    exact ⟨by simp, [j], rfl⟩
  | emitAnnounceForLocal d data pr only =>
    change ({ t with out := [] }.emitAnnounceForLocal d data pr only).map Prod.snd = .ok t' at h
    cases he : emitAnnounceForLocal { t with out := [] } d data pr only with
    | error e =>
      rw [he] at h
      cases h
    | ok res =>
      rw [he] at h
      obtain ⟨n, o, ho, s, hr⟩ := emitAnnounceForLocal_frame he
      cases h
      rw [hr]
      exact ⟨fun e he => Event.queues_of_emits (ho e (by simpa using he)), [], by simp⟩
  | _ =>
    cases h
    exact ⟨by simp, [], by simp⟩

theorem step_interfaces (h : t.step a = .ok t') : ∃ js, t'.interfaces = t.interfaces ++ js := by
  cases step_did h with
  | apart ha _ => exact (local_queue ha h).2
  | dropped _ => exact ⟨[], by simp⟩
  | took _ _ hh => cases hh <;> exact ⟨[], by simp⟩
  | ticked _ => exact ⟨[], by simp⟩

end

/-! ### Runs -/

section
variable {t t' : Transport} {a : Action} {i : IfaceId} {d r : Bytes}
  {rs : List (Rec Transport Action)}

/-- How many announces `(d, r)` wait for rebroadcast. -/
def waiting (t : Transport) (d r : Bytes) : Nat :=
  t.announceTable.entries.values.countP (AnnounceEntry.announces d r)

/-- The call takes in an announce `(d, r)`. -/
def Accepts (d r : Bytes) (c : Rec Transport Action) : Prop :=
  ∃ i wire now p va, c.act = .inbound i wire now ∧ arriving wire = some p ∧
    c.pre.hasSeen p = false ∧ c.pre.accepts p = some va ∧ va.destinationHash = d ∧
    va.randomHash = r

/-- The call puts an announce `(d, r)` into the announce table. -/
def Inserts (d r : Bytes) (c : Rec Transport Action) : Prop :=
  ∃ i wire now e, c.act = .inbound i wire now ∧ announced e.announceWire = some (d, r) ∧
    c.post.announceTable = c.pre.announceTable.put e ∧
    c.post.stats .announcesQueued = c.pre.stats .announcesQueued + 1

theorem announces_queuedAnnounce {va : ValidatedAnnounce} {p : Packet} {now : Nat}
    (hv : Identity.validateAnnounce p = some va) :
    announced (t.queuedAnnounce va i p now).announceWire =
      some (va.destinationHash, va.randomHash) := by
  simp only [announced, queuedAnnounce, Packet.fromWireBytes_wireBytes,
    validateAnnounce_reissued, hv, Option.map_some]

/-- What a call hands over had been waiting; and more waits only after an announce that is new. -/
theorem step_waiting (h : t.step a = .ok t') (i : IfaceId) (d r : Bytes) :
    ∃ k, t'.out.countP (Event.handsOver i d r) = k * t.interfaces.count i ∧
      (t'.waiting d r + k ≤ t.waiting d r ∨ Accepts d r ⟨t, a, t'⟩ ∧ r ∉ t.blobs d ∧ k = 0 ∧
        t'.waiting d r ≤ t.waiting d r + 1) := by
  cases a with
  | inbound j wire now =>
    obtain ⟨hq, ⟨htable, -⟩ | ⟨p, va, htakes, htable, -⟩⟩ := inbound_queue h
    · refine ⟨0, by simp [countP_handsOver_eq_zero hq], .inl ?_⟩
      rw [waiting, htable]
      exact Nat.le_refl _
    · refine ⟨0, by simp [countP_handsOver_eq_zero hq], ?_⟩
      have hann : announced (t.queuedAnnounce va j p now).announceWire =
          some (va.destinationHash, va.randomHash) :=
        announces_queuedAnnounce (accepts_checks htakes.accepts).1
      have hput := Dict.countP_values_insert (AnnounceEntry.announces d r)
        (keyOf (t.queuedAnnounce va j p now).destHash) (t.queuedAnnounce va j p now)
        t.announceTable.entries
      by_cases hdr : va.destinationHash = d ∧ va.randomHash = r
      · obtain ⟨rfl, rfl⟩ := hdr
        refine .inr ⟨⟨j, wire, now, p, va, rfl, htakes.arrives, htakes.unseen, htakes.accepts, rfl,
          rfl⟩, htakes.fresh, rfl, ?_⟩
        rw [waiting, htable]
        refine hput.trans (Nat.add_le_add_left ?_ _)
        split <;> omega
      · left
        have hother : AnnounceEntry.announces d r (t.queuedAnnounce va j p now) = false := by
          rw [AnnounceEntry.announces, hann]
          simpa using hdr
        rw [hother] at hput
        rw [waiting, htable]
        exact hput
  | tick now =>
    refine ⟨_, tick_handsOver h i d r, .inl ?_⟩
    have hsplit := Dict.countP_values_retain (AnnounceEntry.announces d r)
      (fun e => decide (e.retransmitAtMs ≤ now)) t.announceTable.entries
    cases step_did h with
    | apart ha _ => cases ha
    | ticked _ =>
      simp only [waiting, AnnounceTable.popDue]
      omega
  | _ =>
    have hkeep := step_did h
    cases hkeep with
    | apart ha hk =>
      refine ⟨0, by simp [countP_handsOver_eq_zero (local_queue ha h).1], .inl ?_⟩
      rw [waiting, hk.announceTable]
      exact Nat.le_refl _

theorem count_interfaces_le (hrun : Run Steps t rs t') (i : IfaceId) :
    t.interfaces.count i ≤ t'.interfaces.count i := by
  refine Run.inv (I := fun s => t.interfaces.count i ≤ s.interfaces.count i) hrun (Nat.le_refl _) ?_
  intro s a s' hs hstep
  obtain ⟨js, hjs⟩ := step_interfaces hstep
  rw [hjs, List.count_append]
  omega

/-- While no announce `(d, r)` is taken in anew, what is handed over was waiting at the start. -/
theorem handed_le (hrun : Run Steps t rs t')
    (hno : ∀ c ∈ rs, Accepts d r c → r ∈ c.pre.blobs d) (i : IfaceId) :
    (rs.map fun c => c.post.out.countP (Event.handsOver i d r)).sum ≤
        t.waiting d r * t'.interfaces.count i ∧
      t'.waiting d r ≤ t.waiting d r := by
  induction rs generalizing t with
  | nil => simp [hrun.nil_inv]
  | cons c rs ih =>
    obtain ⟨hpre, hstep, hrest⟩ := hrun.cons_inv
    subst hpre
    obtain ⟨hsum, hle⟩ := ih hrest fun c' hc' => hno c' (List.mem_cons_of_mem c hc')
    obtain ⟨k, hk, hwait | ⟨hacc, hnew, -⟩⟩ := step_waiting hstep i d r
    · have hcount := count_interfaces_le hrun i
      have hk' : k * c.pre.interfaces.count i ≤ k * t'.interfaces.count i :=
        Nat.mul_le_mul_left k hcount
      have htotal : (c.post.waiting d r + k) * t'.interfaces.count i ≤
          c.pre.waiting d r * t'.interfaces.count i := Nat.mul_le_mul_right _ hwait
      rw [Nat.add_mul] at htotal
      rw [List.map_cons, List.sum_cons, hk]
      constructor <;> omega
    · exact absurd (hno c (List.mem_cons_self ..) hacc) hnew

/-- Only an announce that is not in the window is put into the announce table. -/
theorem Inserts.fresh {c : Rec Transport Action} (h : Steps c.pre c.act c.post)
    (hins : Inserts d r c) : r ∉ c.pre.blobs d := by
  obtain ⟨t, a, t'⟩ := c
  obtain ⟨i, wire, now, e, rfl, hann, hput, hcount⟩ := hins
  obtain ⟨-, ⟨-, hsame⟩ | ⟨p, va, htakes, htable, -⟩⟩ := inbound_queue h
  · have hcount : t'.stats .announcesQueued = t.stats .announcesQueued + 1 := hcount
    omega
  · have hentries := congrArg AnnounceTable.entries (hput.symm.trans htable)
    obtain ⟨-, rfl⟩ := Dict.insert_injective hentries
    rw [announces_queuedAnnounce (accepts_checks htakes.accepts).1] at hann
    cases hann
    exact htakes.fresh

/-- The random hashes for `d` that a call adds to the window. -/
def newBlobs (d : Bytes) (c : Rec Transport Action) : List Bytes :=
  (c.post.blobs d).filter fun b => !(c.pre.blobs d).contains b

def recordedBlobs (d : Bytes) (rs : List (Rec Transport Action)) : Finset Bytes :=
  (rs.flatMap (newBlobs d)).toFinset

omit [CryptoLib] in
theorem mem_recordedBlobs {b : Bytes} :
    b ∈ recordedBlobs d rs ↔ ∃ c ∈ rs, b ∈ c.post.blobs d ∧ b ∉ c.pre.blobs d := by
  simp [recordedBlobs, newBlobs]

omit [CryptoLib] in
theorem trailed_pushBlob {blobs : List Bytes} {b : Bytes} {S : Finset Bytes}
    (h : Trailed (blobs ++ [b]) r S) (hnodup : blobs.Nodup) (hnew : b ∉ blobs)
    (hS : S.card < 32) : Trailed (PathTable.pushBlob blobs b) r S := by
  have hnodup' : (blobs ++ [b]).Nodup :=
    List.nodup_append.mpr ⟨hnodup, List.nodup_singleton b, fun x hx y hy hxy =>
      hnew (List.mem_singleton.mp hy ▸ hxy ▸ hx)⟩
  unfold PathTable.pushBlob
  simp only
  split
  · rename_i hfull
    simp only [PathTable.maxRandomBlobs] at hfull
    exact h.drop hnodup' (by omega)
  · exact h

omit [CryptoLib] in
/-- The window after an announce was taken in. -/
theorem blobs_takeIn {va : ValidatedAnnounce} {p : Packet} {now : Nat}
    (hp : t'.paths.get va.destinationHash = some ((t.keptPath va i p now).noted va.randomHash)) :
    t'.blobs va.destinationHash = if va.randomHash ∈ t.blobs va.destinationHash
      then t.blobs va.destinationHash
      else PathTable.pushBlob (t.blobs va.destinationHash) va.randomHash := by
  rw [blobs, hp, Option.map_some, Option.getD_some, PathEntry.noted, keptPath_randomBlobs]
  split
  · exact keptPath_randomBlobs
  · rfl

/-- A random hash comes into the window with an announce that is taken in. -/
theorem accepts_of_mem_blobs (h : t.step a = .ok t') (hpost : r ∈ t'.blobs d)
    (hpre : r ∉ t.blobs d) : Accepts d r ⟨t, a, t'⟩ := by
  cases step_entry h d with
  | keep hp _ =>
    rw [blobs, hp] at hpost
    exact absurd hpost hpre
  | @takeIn j wire now p va _ hw hs ha hd hp _ =>
    subst hd
    rw [blobs_takeIn hp] at hpost
    split at hpost
    · exact absurd hpost hpre
    · rcases PathTable.mem_of_mem_pushBlob hpost with hold | hr
      · exact absurd hold hpre
      · exact ⟨j, wire, now, p, va, rfl, hw, hs, ha, rfl, hr.symm⟩
  | expire _ _ hp _ =>
    rw [blobs, hp] at hpost
    cases hpost

/-- A random hash stays in the window while the path stays and less than a window is recorded. -/
theorem trailed_step {S : Finset Bytes} (hi : EntriesSound t) (h : t.step a = .ok t')
    (hr : Trailed (t.blobs d) r S) (hkept : t'.paths.get d ≠ none)
    (hnew : ∀ b ∈ t'.blobs d, b ∉ t.blobs d → b ≠ r → b ∈ S) (hS : S.card < 32) :
    Trailed (t'.blobs d) r S := by
  cases step_entry h d with
  | keep hp _ =>
    rw [blobs, hp]
    exact hr
  | @takeIn j wire now p va _ hw hs ha hd hp _ =>
    subst hd
    have hblobs := blobs_takeIn hp
    split at hblobs
    · rw [hblobs]
      exact hr
    · rename_i hfresh
      have hin : va.randomHash ∈ t'.blobs va.destinationHash := by
        rw [hblobs]
        exact PathTable.mem_pushBlob_self _ _
      have hne : va.randomHash ≠ r := fun heq => hfresh (heq ▸ hr.mem)
      rw [hblobs]
      exact trailed_pushBlob (hr.snoc (hnew _ hin hfresh hne)) (blobWindow_blobs hi _).nodup hfresh
        hS
  | expire _ _ hp _ => exact absurd hp hkept

theorem trailed_of_accepts {S : Finset Bytes} {c : Rec Transport Action} (hi : EntriesSound c.pre)
    (h : Steps c.pre c.act c.post) (hacc : Accepts d r c) (hfresh : r ∉ c.pre.blobs d)
    (hS : S.card < 32) : Trailed (c.post.blobs d) r S := by
  obtain ⟨t, a, t'⟩ := c
  obtain ⟨i, wire, now, p, va, rfl, hw, hs, ha, rfl, rfl⟩ := hacc
  rcases inbound_path h hw (accepts_checks ha).1 with ⟨hseen | hnone, -⟩ | ⟨-, -, hp⟩
  · cases hs.symm.trans hseen
  · cases ha.symm.trans hnone
  · rw [blobs_takeIn hp, if_neg hfresh]
    exact trailed_pushBlob (Trailed.last _ _ _) (blobWindow_blobs hi _).nodup hfresh hS

/-- In a run that keeps the path and records less than a window, a random hash is in the window at
the start of every call. -/
theorem mem_blobs_of_run {S : Finset Bytes} (hrun : Run Steps t rs t') (hi : EntriesSound t)
    (hr : Trailed (t.blobs d) r S) (hkept : ∀ c ∈ rs, c.pre.paths.get d ≠ none)
    (hnew : ∀ c ∈ rs.dropLast, ∀ b ∈ c.post.blobs d, b ∉ c.pre.blobs d → b ≠ r → b ∈ S)
    (hS : S.card < 32) : ∀ c ∈ rs, r ∈ c.pre.blobs d := by
  induction rs generalizing t with
  | nil => simp
  | cons c rs ih =>
    obtain ⟨hpre, hstep, hrest⟩ := hrun.cons_inv
    subst hpre
    rintro c' (_ | ⟨_, hc'⟩)
    · exact hr.mem
    -- the next call finds the path where this one left it
    obtain ⟨next, later, rfl⟩ := List.exists_cons_of_ne_nil (List.ne_nil_of_mem hc')
    have hdrop : (c :: next :: later).dropLast = c :: (next :: later).dropLast := rfl
    rw [hdrop] at hnew
    have hpost : c.post.paths.get d ≠ none := by
      rw [← hrest.cons_inv.1]
      exact hkept next (by simp)
    have hr' := trailed_step hi hstep hr hpost (hnew c (List.mem_cons_self ..)) hS
    exact ih hrest (entriesSound_step hi hstep) hr' (fun c'' hc'' => hkept c'' (.tail _ hc''))
      (fun c'' hc'' => hnew c'' (.tail _ hc'')) c' hc'

/-- Before its first acceptance an announce is nowhere. -/
theorem not_accepted_before {id₀ : Identity} {enabled : Bool} {cfg : IfaceId → Interface.Config}
    (hrun : Run Steps (new id₀ enabled cfg) rs t) (hno : ∀ c ∈ rs, ¬ Accepts d r c) :
    r ∉ t.blobs d ∧ t.waiting d r = 0 := by
  constructor
  · refine Run.inv_of (I := fun s => r ∉ s.blobs d) hrun (by simp [blobs, new]) hno ?_
    intro s a s' hs hstep hnot hmem
    exact hnot (accepts_of_mem_blobs hstep hmem hs)
  · have hwait := (handed_le hrun (fun c hc hacc => absurd hacc (hno c hc)) 0).2
    exact Nat.le_zero.mp hwait

/-- From the first acceptance of an announce, while the path of its destination stays and less than
a window of other announces is recorded, it is put into the announce table at most once and handed
to an interface at most as often as that is registered. -/
theorem rebroadcast_at_most_once {id₀ : Identity} {enabled : Bool}
    {cfg : IfaceId → Interface.Config} {before after : List (Rec Transport Action)}
    {first : Rec Transport Action} {t : Transport} {d r : Bytes}
    (hrun : Run Steps (new id₀ enabled cfg) (before ++ first :: after) t)
    (hbefore : ∀ c ∈ before, ¬ Accepts d r c) (hfirst : Accepts d r first)
    (hkept : ∀ c ∈ after, c.pre.paths.get d ≠ none)
    (hfew : ((recordedBlobs d after.dropLast).erase r).card < 32) :
    (Run.positions (first :: after) (Inserts d r)).card ≤ 1 ∧
    ∀ i, ((first :: after).map fun c => c.post.out.countP (Event.handsOver i d r)).sum ≤
      t.interfaces.count i := by
  obtain ⟨hrun₀, hstep, hafter⟩ := hrun.split_at
  obtain ⟨hfresh, hnone⟩ := not_accepted_before hrun₀ hbefore
  have hi : EntriesSound first.pre := Reachable.entriesSound ⟨id₀, enabled, cfg, _, hrun₀⟩
  have htrail : Trailed (first.post.blobs d) r ((recordedBlobs d after.dropLast).erase r) :=
    trailed_of_accepts hi hstep hfirst hfresh hfew
  -- later copies find the random hash in the window
  have hwindow : ∀ c ∈ after, r ∈ c.pre.blobs d := by
    refine mem_blobs_of_run hafter (entriesSound_step hi hstep) htrail hkept ?_ hfew
    intro c hc b hpost hpre hne
    exact Finset.mem_erase.mpr ⟨hne, mem_recordedBlobs.mpr ⟨c, hc, hpost, hpre⟩⟩
  constructor
  · have hsub : Run.positions (first :: after) (Inserts d r) ⊆ {0} := by
      intro n hn
      obtain ⟨c, hc, hins⟩ := Run.mem_positions.mp hn
      cases n with
      | zero => exact Finset.mem_singleton_self 0
      | succ n =>
        have hmem : c ∈ after := List.mem_of_getElem? hc
        exact absurd (hwindow c hmem) (Inserts.fresh (hafter.step_of_mem hmem) hins)
    exact (Finset.card_le_card hsub).trans (Finset.card_singleton 0).le
  · intro i
    obtain ⟨hsum, -⟩ := handed_le hafter (fun c hc _ => hwindow c hc) i
    obtain ⟨k, hk, hwait⟩ := step_waiting hstep i d r
    have hone : first.post.waiting d r ≤ 1 ∧ k = 0 := by
      rw [hnone] at hwait
      omega
    have hwaiting : first.post.waiting d r * t.interfaces.count i ≤ 1 * t.interfaces.count i :=
      Nat.mul_le_mul_right _ hone.1
    rw [List.map_cons, List.sum_cons, hk, hone.2]
    omega

end

end Transport
end

namespace Transport
open Vectors
attribute [local instance] lib

set_option maxRecDepth 100000 in
theorem heardAlice_rebroadcast :
    (relay.steps [.registerInterface 0, .registerInterface 1]).toOption.map (fun t =>
      ((arriving aliceAnnounce).bind fun p => if t.hasSeen p then none else
          (t.accepts p).map fun va => (va.destinationHash, va.randomHash),
        (t.step (.inbound 1 aliceAnnounce 1000)).toOption.bind fun t₁ =>
          if t₁.paths.get aliceDest = none then none else
            (t₁.step (.tick 1001)).toOption.map fun t₂ =>
              (t₂.interfaces.count 0, t₂.out.countP Event.queues))) =
    some (some (aliceDest, aliceAnnounce.slice 93 10), some (1, 2)) := by
  decide +kernel

/-- Alice's announce is taken in and, with the next tick, handed over. -/
theorem rebroadcast_at_most_once_alice : ∃ before first after t,
    Run Steps relay (before ++ first :: after) t ∧
    Accepts aliceDest (aliceAnnounce.slice 93 10) first ∧
    (Run.positions (first :: after) (Inserts aliceDest (aliceAnnounce.slice 93 10))).card ≤ 1 ∧
    ((first :: after).map fun c => c.post.out.countP
      (Event.handsOver 0 aliceDest (aliceAnnounce.slice 93 10))).sum ≤ 1 := by
  obtain ⟨t, hsteps, -, hf⟩ :=
    reachable_of_steps (reachable_new bob true fun _ => Vectors.cfg) heardAlice_rebroadcast
  obtain ⟨hacc, hf⟩ := Prod.mk.inj hf
  obtain ⟨p, hw, hacc⟩ := Option.bind_eq_some_iff.mp hacc
  obtain ⟨t₁, h₁, hf⟩ := Option.bind_eq_some_iff.mp hf
  split at hacc
  · cases hacc
  rename_i hs
  obtain ⟨va, ha, hva⟩ := Option.map_eq_some_iff.mp hacc
  obtain ⟨hd, hr⟩ := Prod.mk.inj hva
  split at hf
  · cases hf
  rename_i hpath
  obtain ⟨t₂, h₂, hcount⟩ := Option.map_eq_some_iff.mp hf
  have h₁ := toOption_eq_some h₁
  have h₂ := toOption_eq_some h₂
  obtain ⟨before, hrun, hacts⟩ := run_of_steps hsteps
  have hfirst : Accepts aliceDest (aliceAnnounce.slice 93 10)
      ⟨t, .inbound 1 aliceAnnounce 1000, t₁⟩ :=
    ⟨1, aliceAnnounce, 1000, p, va, rfl, hw, eq_false_of_ne_true hs, ha, hd, hr⟩
  have hbefore : ∀ c ∈ before, ¬ Accepts aliceDest (aliceAnnounce.slice 93 10) c := by
    rintro c hc ⟨i, wire, now, p', va', hact, -⟩
    have hmem : c.act ∈ before.map Rec.act := List.mem_map_of_mem hc
    rw [hacts, hact] at hmem
    simp at hmem
  have hrun₂ : Run Steps relay (before ++ [⟨t, .inbound 1 aliceAnnounce 1000, t₁⟩,
      ⟨t₁, .tick 1001, t₂⟩]) t₂ := hrun.append ((Run.single h₂).cons h₁)
  obtain ⟨hcard, hsum⟩ := rebroadcast_at_most_once hrun₂ hbefore hfirst
    (by simpa using hpath) (by simp [recordedBlobs])
  have hone := hsum 0
  rw [(Prod.mk.inj hcount).1] at hone
  exact ⟨before, _, _, t₂, hrun₂, hfirst, hcard, hone⟩

end Transport
end Reticulum
