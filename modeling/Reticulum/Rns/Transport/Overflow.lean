import Reticulum.Rns.Transport.Waiting
import Reticulum.Rns.Vectors

/-!
# Announces lost on a full queue

`pop_due` takes an entry out of the announce table before `queue_announce` may refuse it, and
nothing looks at the refusal: the entry is gone, and counts as rebroadcast all the same.
-/

namespace Reticulum

/-- An interface accepted the entry. -/
def Event.acceptedFor (e : AnnounceEntry) : Event → Bool
  | .queueAnnounce _ wire hops accepted =>
    accepted && decide (wire = e.announceWire) && decide (hops = e.announceHops)
  | _ => false

theorem Event.acceptedFor_iff {e : AnnounceEntry} {ev : Event} : ev.acceptedFor e = true ↔
    ∃ i, ev = .queueAnnounce i e.announceWire e.announceHops true := by
  cases ev with
  | queueAnnounce i wire hops accepted =>
    simp only [acceptedFor, Bool.and_eq_true, decide_eq_true_eq, Event.queueAnnounce.injEq]
    constructor
    · rintro ⟨⟨rfl, rfl⟩, rfl⟩
      exact ⟨i, rfl, rfl, rfl, rfl⟩
    · rintro ⟨j, -, rfl, rfl, rfl⟩
      exact ⟨⟨rfl, rfl⟩, rfl⟩
  | _ => simp [acceptedFor]

namespace Transport

/-- Every entry that the tick takes out is, for each interface, accepted by it or kept, and only
entries that an interface accepted are counted. -/
structure Conserves (t : Transport) (now : Nat) (t' : Transport) : Prop where
  kept : ∀ e ∈ (t.announceTable.popDue now).1, ∀ i ∈ t.interfaces,
    .queueAnnounce i e.announceWire e.announceHops true ∈ t'.out ∨
      ∃ e' ∈ t'.announceTable.entries.values, e'.announceWire = e.announceWire
  counted : t'.stats .announcesRebroadcast ≤ t.stats .announcesRebroadcast +
    (t.announceTable.popDue now).1.countP fun e => t'.out.any (Event.acceptedFor e)

/-- Nothing is due, or there are interfaces and each has room for the last of the due entries after
those before it. -/
def HasRoom (t : Transport) (now : Nat) : Prop :=
  (t.announceTable.popDue now).1 = [] ∨ t.interfaces ≠ [] ∧ ∀ i ∈ t.interfaces,
    ((t.announceTable.popDue now).1.length - 1) * t.interfaces.count i < t.room i

section
variable {t : Transport} {now : Nat}

theorem TableSound.nodup_wires (h : TableSound t) :
    (t.announceTable.entries.values.map AnnounceEntry.announceWire).Nodup := by
  have hnodup : (t.announceTable.entries.values.map fun e => keyOf e.destHash).Nodup :=
    Dict.nodup_map_values fun k e he => (h k e he).1
  refine List.Nodup.map_on ?_ hnodup.of_map
  intro e he e' he' hwire
  obtain ⟨k, hk⟩ := (Dict.mem_values_iff _ _).mp he
  obtain ⟨k', hk'⟩ := (Dict.mem_values_iff _ _).mp he'
  have hdest : e.destHash = e'.destHash := by
    have hd := (h k e hk).2
    rw [hwire, (h k' e' hk').2] at hd
    exact (Option.some.inj hd).symm
  exact List.inj_on_of_nodup_map hnodup he he' (congrArg keyOf hdest)

/-- The due entries keep their places. -/
theorem TableSound.place_unique (h : TableSound t) {pre pre' post post' : List AnnounceEntry}
    {e e' : AnnounceEntry} (hdue : (t.announceTable.popDue now).1 = pre ++ e :: post)
    (hdue' : (t.announceTable.popDue now).1 = pre' ++ e' :: post')
    (hwire : e.announceWire = e'.announceWire) : pre.length = pre'.length := by
  have hsub : ((t.announceTable.popDue now).1.map AnnounceEntry.announceWire).Nodup :=
    h.nodup_wires.sublist (List.filter_sublist.map _)
  have hget : ∀ {l l' : List AnnounceEntry} {x : AnnounceEntry},
      (t.announceTable.popDue now).1 = l ++ x :: l' →
      ((t.announceTable.popDue now).1.map AnnounceEntry.announceWire)[l.length]? =
        some x.announceWire := by
    intro l l' x heq
    rw [heq]
    simp
  have hlen : pre.length < ((t.announceTable.popDue now).1.map AnnounceEntry.announceWire).length :=
    (List.getElem?_eq_some_iff.mp (hget hdue)).1
  refine (List.getElem?_inj hlen hsub).mp ?_
  rw [hget hdue, hget hdue', hwire]

/-- What is due is not kept. -/
theorem TableSound.not_kept (h : TableSound t) {e e' : AnnounceEntry}
    (he : e ∈ (t.announceTable.popDue now).1)
    (he' : e' ∈ (t.announceTable.popDue now).2.entries.values) :
    e'.announceWire ≠ e.announceWire := by
  intro hwire
  obtain ⟨hmem, hdue⟩ := List.mem_filter.mp he
  obtain ⟨k, hk⟩ := (Dict.mem_values_iff _ _).mp he'
  rw [AnnounceTable.popDue, Dict.lookup_retain, Option.filter_eq_some_iff] at hk
  have hmem' := (Dict.mem_values_iff _ _).mpr ⟨k, hk.1⟩
  obtain rfl := List.inj_on_of_nodup_map h.nodup_wires hmem' hmem hwire
  simp only [decide_eq_true_eq] at hdue
  simp [hdue] at hk

end

section
variable [CryptoLib]
variable {t t' : Transport} {now : Nat}

theorem HasRoom.conserves (hroom : HasRoom t now) (h : t.step (.tick now) = .ok t') :
    Conserves t now t' := by
  obtain ⟨-, hcount, hacc⟩ := tick_spec h
  rcases hroom with hnone | ⟨hifaces, hroom⟩
  · constructor
    · rw [hnone]
      intro e he
      cases he
    · rw [hcount, hnone]
      exact Nat.le_refl _
  · have hall : ∀ e ∈ (t.announceTable.popDue now).1, ∀ i ∈ t.interfaces,
        .queueAnnounce i e.announceWire e.announceHops true ∈ t'.out := by
      intro e he i hi
      obtain ⟨pre, post, hdue⟩ := List.append_of_mem he
      refine (hacc _ _ _).mpr ⟨pre, e, post, hdue, rfl, rfl, hi, ?_⟩
      have hlen : pre.length ≤ (t.announceTable.popDue now).1.length - 1 := by
        rw [hdue, List.length_append, List.length_cons]
        omega
      exact Nat.lt_of_le_of_lt (Nat.mul_le_mul_right _ hlen) (hroom i hi)
    constructor
    · intro e he i hi
      exact .inl (hall e he i hi)
    · rw [hcount, List.countP_eq_length.mpr]
      intro e he
      obtain ⟨i, hi⟩ := List.exists_mem_of_ne_nil _ hifaces
      exact List.any_eq_true.mpr ⟨_, hall e he i hi, Event.acceptedFor_iff.mpr ⟨i, rfl⟩⟩

/-- A tick conserves what it takes out exactly when the interfaces have room for all of it. -/
theorem conserves_iff (ht : TableSound t) (h : t.step (.tick now) = .ok t') :
    Conserves t now t' ↔ HasRoom t now := by
  constructor
  swap
  · intro hroom
    exact hroom.conserves h
  intro hc
  obtain ⟨-, hcount, hacc⟩ := tick_spec h
  have htable : t'.announceTable = (t.announceTable.popDue now).2 := by
    obtain ⟨sch, s, f, n, o, -, rfl⟩ := tick_frame h
    rfl
  rcases List.eq_nil_or_concat (t.announceTable.popDue now).1 with hnone | ⟨pre, e, hdue⟩
  · exact .inl hnone
  have he : e ∈ (t.announceTable.popDue now).1 := by
    rw [hdue]
    simp
  refine .inr ⟨?_, ?_⟩
  · -- without interfaces the entries are counted, and nobody has them
    intro hnone
    have hno : ∀ e ∈ (t.announceTable.popDue now).1,
        ¬ t'.out.any (Event.acceptedFor e) = true := by
      intro e _ hany
      obtain ⟨ev, hev, hfor⟩ := List.any_eq_true.mp hany
      obtain ⟨i, rfl⟩ := Event.acceptedFor_iff.mp hfor
      obtain ⟨-, -, -, -, -, -, hi, -⟩ := (hacc _ _ _).mp hev
      rw [hnone] at hi
      cases hi
    have hcounted := hc.counted
    rw [hcount, List.countP_eq_zero.mpr hno] at hcounted
    have hpos := List.length_pos_of_mem he
    omega
  · intro i hi
    rcases hc.kept e he i hi with hev | ⟨e', he', hwire⟩
    · -- the last of the due entries was accepted in its place
      obtain ⟨pre', e', post', hdue', hwire, -, -, hlt⟩ := (hacc _ _ _).mp hev
      have hplace := ht.place_unique (hdue.trans (List.concat_eq_append ..)) hdue' hwire
      have hlen : (t.announceTable.popDue now).1.length - 1 = pre'.length := by
        rw [← hplace, hdue, List.length_concat, Nat.add_sub_cancel]
      rw [hlen]
      exact hlt
    · rw [htable] at he'
      exact absurd hwire (ht.not_kept he he')

/-- In every run, a tick loses no announce and counts none that nobody accepted exactly when the
interfaces have room for what is due. -/
theorem announces_conserved {id : Identity} {enabled : Bool} {cfg : IfaceId → Interface.Config}
    {rs : List (Rec Transport Action)} {t : Transport}
    (hrun : Run Steps (new id enabled cfg) rs t) : ∀ c ∈ rs, ∀ now, c.act = .tick now →
      (Conserves c.pre now c.post ↔ HasRoom c.pre now) := by
  intro c hc now hact
  obtain ⟨before, after, rfl⟩ := List.append_of_mem hc
  obtain ⟨hrun₀, hstep, -⟩ := hrun.split_at
  have hpre : Reachable c.pre := ⟨id, enabled, cfg, before, hrun₀⟩
  have hstep : c.pre.step c.act = .ok c.post := hstep
  rw [hact] at hstep
  exact conserves_iff hpre.tableSound hstep

end

open Vectors
attribute [local instance] lib

/-- Bob, with room for one announce on an interface that is too slow to let any through. -/
def narrow : Transport :=
  .new bob true fun _ => { Vectors.cfg with bitrateBps := 1000, maxQueuedAnnounces := 1 }

set_option maxRecDepth 100000 in
theorem narrow_state : ((narrow.steps [.registerInterface 0, .inbound 0 (aliceAnnounceAt 1 0) 1000,
      .tick 1001, .inbound 0 (aliceAnnounceAt 2 0) 2000]).toOption.bind fun t =>
    (t.step (.tick 2001)).toOption.map fun t' => ((t.announceTable.popDue 2001).1.length,
      t.interfaces, t.room 0, t'.stats .announcesRebroadcast)) = some (1, [0], 0, 2) := by
  decide +kernel

/-- The second announce is lost, and counted. -/
theorem announce_lost : ∃ t t', Reachable t ∧ t.step (.tick 2001) = .ok t' ∧
    (t.announceTable.popDue 2001).1 ≠ [] ∧ t'.stats .announcesRebroadcast = 2 ∧
    ¬ Conserves t 2001 t' := by
  obtain ⟨t, ht, h⟩ := Option.bind_eq_some_iff.mp narrow_state
  obtain ⟨t', ht', hstate⟩ := Option.map_eq_some_iff.mp h
  simp only [Prod.mk.injEq] at hstate
  obtain ⟨hdue, hifaces, hroom, hcount⟩ := hstate
  have hstep := toOption_eq_some ht'
  obtain ⟨rs, hrun, -⟩ := run_of_steps (toOption_eq_some ht)
  have hreach : Reachable t := ⟨_, _, _, rs, hrun⟩
  have hne : (t.announceTable.popDue 2001).1 ≠ [] := by
    intro hnil
    rw [hnil] at hdue
    cases hdue
  refine ⟨t, t', hreach, hstep, hne, hcount, ?_⟩
  intro hc
  rcases (conserves_iff hreach.tableSound hstep).mp hc with hnil | ⟨-, hspace⟩
  · exact hne hnil
  · have hlt := hspace 0 (by rw [hifaces]; exact List.mem_singleton_self 0)
    rw [hroom] at hlt
    exact absurd hlt (Nat.not_lt_zero _)

set_option maxRecDepth 100000 in
theorem heardAlice_ticks :
    (relay.steps (heardAlice ++ [.tick 1001])).toOption.isSome = true := by
  decide +kernel

/-- Alice's announce finds room. -/
theorem announces_conserved_alice : ∃ rs t, Run Steps relay rs t ∧
    rs.map Rec.act = heardAlice ++ [.tick 1001] ∧ ∀ c ∈ rs, ∀ now, c.act = .tick now →
      (Conserves c.pre now c.post ↔ HasRoom c.pre now) := by
  obtain ⟨t, hsteps⟩ := steps_of_isSome heardAlice_ticks
  obtain ⟨rs, hrun, hacts⟩ := run_of_steps hsteps
  exact ⟨rs, t, hrun, hacts, announces_conserved hrun⟩

end Transport
end Reticulum
