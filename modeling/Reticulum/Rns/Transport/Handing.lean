import Reticulum.Rns.Transport.Counters
import Reticulum.Rns.Transport.Run

/-!
# Handing over

A tick takes the due entries out of the announce table and calls `queue_announce` with each of them
on every interface, in order; an interface accepts while it has room. Nothing else that a tick does
hands anything over.
-/

namespace Reticulum

/-- Handed to an interface for rebroadcast. -/
def Event.queues : Event → Bool
  | .queueAnnounce _ _ _ _ => true
  | _ => false

/-- What an event hands to an interface's announce queue. -/
def Event.handed : Event → Option (IfaceId × Bytes × UInt8)
  | .queueAnnounce i wire hops _ => some (i, wire, hops)
  | _ => none

theorem Event.handed_eq_none {e : Event} (h : e.queues = false) : e.handed = none := by
  cases e with
  | queueAnnounce i wire hops accepted => cases h
  | _ => rfl

theorem filterMap_handed_eq_nil {o : List Event} (h : ∀ e ∈ o, e.queues = false) :
    o.filterMap Event.handed = [] := by
  rw [List.filterMap_eq_nil_iff]
  intro e he
  exact Event.handed_eq_none (h e he)

namespace Transport

/-- How many more announces an interface accepts. -/
def room (t : Transport) (i : IfaceId) : Nat :=
  (t.iface i).cfg.maxQueuedAnnounces - (t.iface i).queue.length

/-- The calls of `queue_announce` that a tick makes for the entries `due`. -/
def handings (is : List IfaceId) (due : List AnnounceEntry) : List (IfaceId × Bytes × UInt8) :=
  due.flatMap fun e => is.map fun i => (i, e.announceWire, e.announceHops)

/-! ### One call of `queue_announce` after the other -/

section
variable {t : Transport} {e : AnnounceEntry} {i j : IfaceId}

theorem queueOn_out : (t.queueOn e j).out =
    t.out ++ [.queueAnnounce j e.announceWire e.announceHops (decide (0 < t.room j))] := by
  have haccepted : ((t.iface j).queueAnnounce e.announceWire e.announceHops).1 =
      decide (0 < t.room j) := by
    unfold Interface.queueAnnounce room
    split
    · rename_i hfull
      exact (decide_eq_false (by omega)).symm
    · rename_i hfull
      exact (decide_eq_true (by omega)).symm
  rw [← haccepted]
  rfl

theorem queueOn_room : (t.queueOn e j).room i = t.room i - if j = i then 1 else 0 := by
  have hiface : (t.queueOn e j).iface i =
      if i = j then ((t.iface j).queueAnnounce e.announceWire e.announceHops).2 else t.iface i :=
    rfl
  unfold room
  rw [hiface]
  by_cases hij : i = j
  · subst hij
    rw [if_pos rfl, if_pos rfl, Interface.queueAnnounce]
    split
    · dsimp only
      omega
    · dsimp only
      rw [List.length_append, List.length_singleton]
      omega
  · rw [if_neg hij, if_neg (Ne.symm hij), Nat.sub_zero]

/-- One entry goes to the interfaces in turn. -/
theorem queueAll_spec (e : AnnounceEntry) (is : List IfaceId) (t : Transport) :
    ∃ o, (is.foldl (fun t j => t.queueOn e j) t).out = t.out ++ o ∧
      (is.foldl (fun t j => t.queueOn e j) t).interfaces = t.interfaces ∧
      (is.foldl (fun t j => t.queueOn e j) t).stats = t.stats ∧
      (∀ i, (is.foldl (fun t j => t.queueOn e j) t).room i = t.room i - is.count i) ∧
      o.filterMap Event.handed = handings is [e] ∧
      ∀ i w h, .queueAnnounce i w h true ∈ o ↔
        w = e.announceWire ∧ h = e.announceHops ∧ i ∈ is ∧ 0 < t.room i := by
  induction is generalizing t with
  | nil => exact ⟨[], by simp, rfl, rfl, by simp, rfl, by simp⟩
  | cons j is ih =>
    obtain ⟨o, hout, hi, hs, hroom, hhanded, hacc⟩ := ih (t.queueOn e j)
    refine ⟨.queueAnnounce j e.announceWire e.announceHops (decide (0 < t.room j)) :: o, ?_, hi, hs,
      ?_, ?_, ?_⟩
    · rw [List.foldl_cons, hout, queueOn_out, List.append_assoc, List.singleton_append]
    · intro i
      rw [List.foldl_cons, hroom, queueOn_room, List.count_cons]
      simp only [beq_iff_eq]
      omega
    · have hone : Event.handed (.queueAnnounce j e.announceWire e.announceHops
          (decide (0 < t.room j))) = some (j, e.announceWire, e.announceHops) := rfl
      rw [List.filterMap_cons_some hone, hhanded]
      rfl
    · intro i w h
      simp only [List.mem_cons, Event.queueAnnounce.injEq, hacc, queueOn_room]
      constructor
      · rintro (⟨rfl, rfl, rfl, htrue⟩ | ⟨hw, hh, hmem, hpos⟩)
        · exact ⟨rfl, rfl, .inl rfl, of_decide_eq_true htrue.symm⟩
        · exact ⟨hw, hh, .inr hmem, by omega⟩
      · rintro ⟨rfl, rfl, hmem, hpos⟩
        by_cases hij : i = j
        · subst hij
          exact .inl ⟨rfl, rfl, rfl, (decide_eq_true hpos).symm⟩
        · have hmem : i ∈ is := hmem.resolve_left hij
          rw [if_neg (Ne.symm hij)]
          exact .inr ⟨rfl, rfl, hmem, hpos⟩

/-- The entries go out in turn: the one with `pre` before it is accepted on `i` when `i` has room
left after those. -/
theorem queueDue_spec (due : List AnnounceEntry) (t : Transport) :
    ∃ o, (due.foldl (fun t e => (t.interfaces.foldl (fun t j => t.queueOn e j) t).count
        .announcesRebroadcast) t).out = t.out ++ o ∧
      (due.foldl (fun t e => (t.interfaces.foldl (fun t j => t.queueOn e j) t).count
        .announcesRebroadcast) t).stats .announcesRebroadcast =
          t.stats .announcesRebroadcast + due.length ∧
      o.filterMap Event.handed = handings t.interfaces due ∧
      ∀ i w h, .queueAnnounce i w h true ∈ o ↔ ∃ pre e post, due = pre ++ e :: post ∧
        w = e.announceWire ∧ h = e.announceHops ∧ i ∈ t.interfaces ∧
        pre.length * t.interfaces.count i < t.room i := by
  induction due generalizing t with
  | nil => exact ⟨[], by simp, rfl, rfl, by simp⟩
  | cons e due ih =>
    obtain ⟨o₁, hout₁, hi₁, hs₁, hroom₁, hhanded₁, hacc₁⟩ := queueAll_spec e t.interfaces t
    obtain ⟨o₂, hout₂, hs₂, hhanded₂, hacc₂⟩ :=
      ih ((t.interfaces.foldl (fun t j => t.queueOn e j) t).count .announcesRebroadcast)
    have hout : ∀ (t : Transport) (c : Counter), (t.count c).out = t.out := fun _ _ => rfl
    have hifaces : ∀ (t : Transport) (c : Counter), (t.count c).interfaces = t.interfaces :=
      fun _ _ => rfl
    have hroom : ∀ (t : Transport) (c : Counter), (t.count c).room = t.room := fun _ _ => rfl
    rw [hifaces, hi₁] at hhanded₂ hacc₂
    refine ⟨o₁ ++ o₂, ?_, ?_, ?_, ?_⟩
    · rw [List.foldl_cons, hout₂, hout, hout₁, List.append_assoc]
    · rw [List.foldl_cons, hs₂, count_stats, if_pos rfl, hs₁, List.length_cons]
      omega
    · rw [List.filterMap_append, hhanded₁, hhanded₂, handings, handings, handings,
        List.flatMap_cons, List.flatMap_nil, List.append_nil, List.flatMap_cons]
    · intro i w h
      simp only [List.mem_append, hacc₁, hacc₂, hroom, hroom₁]
      constructor
      · rintro (⟨hw, hh, hmem, hpos⟩ | ⟨pre, e', post, hdue, hw, hh, hmem, hpos⟩)
        · exact ⟨[], e, due, rfl, hw, hh, hmem, by simpa using hpos⟩
        · refine ⟨e :: pre, e', post, by rw [hdue, List.cons_append], hw, hh, hmem, ?_⟩
          rw [List.length_cons, Nat.add_mul, Nat.one_mul]
          omega
      · rintro ⟨pre, e', post, hdue, hw, hh, hmem, hpos⟩
        cases pre with
        | nil =>
          rw [List.nil_append] at hdue
          obtain ⟨rfl, rfl⟩ := List.cons.inj hdue
          exact .inl ⟨hw, hh, hmem, by simpa using hpos⟩
        | cons e'' pre =>
          rw [List.cons_append] at hdue
          obtain ⟨rfl, hrest⟩ := List.cons.inj hdue
          rw [List.length_cons, Nat.add_mul, Nat.one_mul] at hpos
          exact .inr ⟨pre, e', post, hrest, hw, hh, hmem, by omega⟩

end

/-! ### A tick -/

section
variable [CryptoLib]

/-- Nothing is handed over. -/
structure Quiet (t t' : Transport) : Prop where
  out : ∃ o, t'.out = t.out ++ o ∧ ∀ e ∈ o, e.queues = false
  interfaces : t'.interfaces = t.interfaces

omit [CryptoLib] in
theorem Quiet.refl (t : Transport) : Quiet t t := ⟨⟨[], by simp, by simp⟩, rfl⟩

omit [CryptoLib] in
theorem Quiet.trans {t t' t'' : Transport} (h : Quiet t t') (h' : Quiet t' t'') : Quiet t t'' := by
  obtain ⟨⟨o, hout, ho⟩, hi⟩ := h
  obtain ⟨⟨o', hout', ho'⟩, hi'⟩ := h'
  refine ⟨⟨o ++ o', by rw [hout', hout, List.append_assoc], ?_⟩, hi'.trans hi⟩
  intro e he
  exact (List.mem_append.mp he).elim (ho e) (ho' e)

omit [CryptoLib] in
theorem Event.queues_of_emits {e : Event} (h : e.emits = true) : e.queues = false := by
  cases e with
  | queueAnnounce => cases h
  | _ => rfl

theorem driveSchedules_quiet {now : Nat} {l l' : List ScheduledAnnounce} {t t' : Transport}
    (h : driveSchedules now l t = .ok (l', t')) : Quiet t t' := by
  refine driveSchedules_inv (I := Quiet t) h (.refl t) ?_ fun hq => ⟨hq.out, hq.interfaces⟩
  intro d a b u u' hq he
  obtain ⟨n, o, ho, s, rfl⟩ := emitAnnounceForLocal_frame he
  exact hq.trans ⟨⟨o, rfl, fun e he => Event.queues_of_emits (ho e he)⟩, rfl⟩

omit [CryptoLib] in
theorem tickInterface_quiet (t : Transport) (i : IfaceId) (now : Nat) :
    Quiet t (t.tickInterface i now) := by
  refine ⟨⟨_, rfl, ?_⟩, rfl⟩
  intro e he
  obtain ⟨w, -, rfl⟩ := List.mem_map.mp he
  rfl

omit [CryptoLib] in
theorem tickInterfaces_quiet (is : List IfaceId) (now : Nat) (t : Transport) :
    Quiet t (is.foldl (fun t i => t.tickInterface i now) t) := by
  induction is generalizing t with
  | nil => exact .refl t
  | cons i is ih => exact (tickInterface_quiet t i now).trans (ih _)

variable {t t' : Transport} {now : Nat}

theorem driveSchedules_stats {l l' : List ScheduledAnnounce} {c : Counter}
    (hc : c ≠ .scheduledAnnouncesEmitted) (h : driveSchedules now l t = .ok (l', t')) :
    t'.stats c = t.stats c :=
  driveSchedules_inv (I := fun u => u.stats c = t.stats c) h rfl
    (fun hu he => (emitAnnounceForLocal_stats he).trans hu)
    fun hu => (count_stats_of_ne hc).trans hu

omit [CryptoLib] in
theorem tickInterfaces_stats (is : List IfaceId) (now : Nat) (t : Transport) :
    (is.foldl (fun t i => t.tickInterface i now) t).stats = t.stats := by
  induction is generalizing t with
  | nil => rfl
  | cons i is ih => exact ih (t.tickInterface i now)

/-- After the announces are handed over a tick hands over nothing more. -/
theorem tick_out (h : t.step (.tick now) = .ok t') : ∃ o, (∀ e ∈ o, e.queues = false) ∧
    t'.out = (driveAnnounceRebroadcast { t with out := [] } now).out ++ o ∧
    t'.stats .announcesRebroadcast =
      (driveAnnounceRebroadcast { t with out := [] } now).stats .announcesRebroadcast := by
  obtain ⟨t₁, h₁, h⟩ := bind_eq_ok (h : tick { t with out := [] } now = .ok t')
  obtain ⟨⟨sch, t₂⟩, h₂, h₁⟩ := bind_eq_ok h₁
  cases h₁
  cases h
  obtain ⟨⟨o₁, hout₁, ho₁⟩, -⟩ := driveSchedules_quiet h₂
  obtain ⟨⟨o₂, hout₂, ho₂⟩, -⟩ :=
    tickInterfaces_quiet t₂.interfaces now { t₂ with scheduledAnnounces := sch }
  have hstats := tickInterfaces_stats t₂.interfaces now { t₂ with scheduledAnnounces := sch }
  have hne : Counter.announcesRebroadcast ≠ .scheduledAnnouncesEmitted := by decide
  have hsched := driveSchedules_stats hne h₂
  refine ⟨o₁ ++ o₂, ?_, ?_, ?_⟩
  · intro e he
    exact (List.mem_append.mp he).elim (ho₁ e) (ho₂ e)
  · rw [← List.append_assoc, ← hout₁]
    exact hout₂
  · exact (congrFun hstats .announcesRebroadcast).trans hsched

/-- What a tick hands to the interfaces, what it counts of it, and what is accepted. -/
theorem tick_spec (h : t.step (.tick now) = .ok t') :
    t'.out.filterMap Event.handed = handings t.interfaces (t.announceTable.popDue now).1 ∧
      t'.stats .announcesRebroadcast =
        t.stats .announcesRebroadcast + (t.announceTable.popDue now).1.length ∧
      ∀ i w hops, .queueAnnounce i w hops true ∈ t'.out ↔ ∃ pre e post,
        (t.announceTable.popDue now).1 = pre ++ e :: post ∧ w = e.announceWire ∧
        hops = e.announceHops ∧ i ∈ t.interfaces ∧
        pre.length * t.interfaces.count i < t.room i := by
  obtain ⟨o, ho, hout, hstats⟩ := tick_out h
  obtain ⟨o', hout', hstats', hhanded, hacc⟩ := queueDue_spec (t.announceTable.popDue now).1
    { t with out := [], announceTable := (t.announceTable.popDue now).2 }
  have hdrive : (driveAnnounceRebroadcast { t with out := [] } now).out = o' := hout'
  rw [hout, hdrive]
  refine ⟨?_, hstats.trans hstats', ?_⟩
  · rw [List.filterMap_append, filterMap_handed_eq_nil ho, List.append_nil, hhanded]
  · intro i w hops
    rw [List.mem_append]
    constructor
    · rintro (hmem | hmem)
      · exact (hacc i w hops).mp hmem
      · cases ho _ hmem
    · intro hex
      exact .inl ((hacc i w hops).mpr hex)

end

end Transport
end Reticulum
