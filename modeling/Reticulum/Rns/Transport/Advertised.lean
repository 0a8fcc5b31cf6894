import Reticulum.Rns.Transport.Rebroadcast

/-!
# Which route a node advertises

A rebroadcast advertises the announce that caused it, a path response the announce in the path
entry. A new random hash is enough for the first, the second also takes a path that replaces the old
one.
-/

namespace Reticulum
namespace Transport

section
variable [CryptoLib]
variable {t t' : Transport} {i : IfaceId} {wire : Bytes} {now : Nat} {e : AnnounceEntry}

/-- The call queued the entry for rebroadcast. -/
def Queues (c : Rec Transport Action) (e : AnnounceEntry) : Prop :=
  c.post.stats .announcesQueued = c.pre.stats .announcesQueued + 1 ∧
    c.post.announceTable = c.pre.announceTable.put e

/-- What the path entries hold was announced over as many hops as they say. -/
theorem hops_of_announceWire {d : Bytes} {old : PathEntry} {q : Packet} (ht : Reachable t)
    (hold : t.paths.get d = some old) (hwire : old.announceWire = q.wireBytes) :
    q.hops = old.hops := by
  obtain ⟨p, va, hcaches, -, -⟩ := (ht.entriesSound d old hold).cached
  have hparse := hcaches.parses
  rw [hwire, Packet.fromWireBytes_wireBytes] at hparse
  rw [Except.ok.inj hparse]
  exact hcaches.hops

/-- A queued announce is the one that came in, reissued. The path entry holds the same exactly when
the announce replaced the path; an announce that was refused leaves what the path entry holds, and
takes the place of what waited for rebroadcast. -/
theorem queued_matches_path (ht : Reachable t) (h : t.step (.inbound i wire now) = .ok t')
    (hq : Queues ⟨t, .inbound i wire now, t'⟩ e) :
    ∃ p va path, arriving wire = some p ∧ t.accepts p = some va ∧
      e.destHash = va.destinationHash ∧ t'.announceTable.get e.destHash = some e ∧
      t'.paths.get e.destHash = some path ∧
      e.announceWire = (reissued t.localIdentity p).wireBytes ∧
      (e.announceWire = path.announceWire ↔
        replacesPath (t.paths.get e.destHash) p.hops va.randomHash now = true) ∧
      ∀ old, t.paths.get e.destHash = some old →
        replacesPath (some old) p.hops va.randomHash now = false →
          path.announceWire = old.announceWire ∧ path.hops = old.hops := by
  obtain ⟨hcount, hput⟩ := hq
  obtain ⟨-, ⟨-, hsame⟩ | ⟨p, va, htakes, htable, -⟩⟩ := inbound_queue h
  · have hcount : t'.stats .announcesQueued = t.stats .announcesQueued + 1 := hcount
    omega
  have hentries := congrArg AnnounceTable.entries (hput.symm.trans htable)
  obtain ⟨-, rfl⟩ := Dict.insert_injective hentries
  obtain ⟨hv, -, -, -⟩ := accepts_checks htakes.accepts
  have hpath : t'.paths.get va.destinationHash =
      some ((t.keptPath va i p now).noted va.randomHash) := by
    rcases inbound_path h htakes.arrives hv with ⟨hno, -⟩ | ⟨-, -, hpath⟩
    · rcases hno with hseen | hnone
      · exact absurd (hseen.symm.trans htakes.unseen) (by simp)
      · cases hnone.symm.trans htakes.accepts
    · exact hpath
  refine ⟨p, va, _, htakes.arrives, htakes.accepts, rfl, ?_, hpath, rfl, ?_, ?_⟩
  · rw [htable, AnnounceTable.get_put, if_pos rfl]
  · show (reissued t.localIdentity p).wireBytes = _ ↔
      replacesPath (t.paths.get va.destinationHash) p.hops va.randomHash now = true
    rw [PathEntry.noted_announceWire]
    cases hold : t.paths.get va.destinationHash with
    | none =>
      rw [keptPath_of_none hold]
      exact iff_of_true rfl rfl
    | some old =>
      cases hr : replacesPath (some old) p.hops va.randomHash now with
      | true =>
        rw [keptPath_of_replaces hold hr]
        exact iff_of_true rfl rfl
      | false =>
        rw [keptPath_of_not_replaces hold hr]
        refine iff_of_false ?_ (by simp)
        -- the old announce came over fewer hops, and the hops are in the wire
        intro hwire
        have hhops := hops_of_announceWire ht hold hwire.symm
        rw [(reissued_shape t.localIdentity p).2.2.1] at hhops
        have hle : p.hops ≤ old.hops := hhops ▸ UInt8.le_refl _
        rw [replacesPath, if_pos hle] at hr
        cases hr
  · intro old hold hr
    rw [keptPath_of_not_replaces hold hr, PathEntry.noted_announceWire, PathEntry.noted_hops]
    exact ⟨rfl, rfl⟩

end

open Vectors
attribute [local instance] lib

/-- Bob has heard Alice's announce of second 2000, and hears an older one over six hops. -/
theorem olderAnnounce_queued : (relay.steps
    [.registerInterface 0, .inbound 0 (aliceAnnounceAt 2000 0) 1000]).toOption.bind (fun t =>
      (t.step (.inbound 0 (aliceAnnounceAt 1001 5) 1001)).toOption.map fun t' =>
        (decide (t'.stats .announcesQueued = t.stats .announcesQueued + 1),
          (t.announceTable.get aliceDest).map (·.announceHops),
          (t'.announceTable.get aliceDest).map (·.announceHops),
          (t'.paths.get aliceDest).map (·.hops),
          decide ((t'.announceTable.get aliceDest).map (·.announceWire) =
            (t'.paths.get aliceDest).map (·.announceWire)))) =
    some (true, some 1, some 6, some 1, false) := by
  decide +kernel

theorem olderAnnounce_heard : ∃ t t' e path, Reachable t ∧
    t.step (.inbound 0 (aliceAnnounceAt 1001 5) 1001) = .ok t' ∧
    Queues ⟨t, .inbound 0 (aliceAnnounceAt 1001 5) 1001, t'⟩ e ∧
    t'.paths.get e.destHash = some path ∧ e.announceWire ≠ path.announceWire := by
  obtain ⟨t, ht, h⟩ := Option.bind_eq_some_iff.mp olderAnnounce_queued
  obtain ⟨t', ht', h⟩ := Option.map_eq_some_iff.mp h
  replace ht := toOption_eq_some ht
  replace ht' := toOption_eq_some ht'
  obtain ⟨hcount, h⟩ := Prod.mk.inj h
  obtain ⟨hbefore, h⟩ := Prod.mk.inj h
  obtain ⟨hafter, h⟩ := Prod.mk.inj h
  obtain ⟨hpath, hwires⟩ := Prod.mk.inj h
  replace hcount := of_decide_eq_true hcount
  replace hwires := of_decide_eq_false hwires
  obtain ⟨path, hpath, -⟩ := Option.map_eq_some_iff.mp hpath
  obtain ⟨-, ⟨-, hsame⟩ | ⟨p, va, -, htable, -⟩⟩ := inbound_queue ht'
  · omega
  have hdest : aliceDest = (t.queuedAnnounce va 0 p 1001).destHash := by
    by_contra hne
    rw [htable, AnnounceTable.get_put, if_neg hne, hbefore] at hafter
    exact absurd hafter (by decide)
  have hget : t'.announceTable.get aliceDest = some (t.queuedAnnounce va 0 p 1001) := by
    rw [htable, AnnounceTable.get_put, if_pos hdest]
  rw [hget, hpath] at hwires
  have hreach : Reachable t := by
    obtain ⟨rs, hrun, -⟩ := run_of_steps ht
    exact ⟨bob, true, _, rs, hrun⟩
  refine ⟨t, t', t.queuedAnnounce va 0 p 1001, path, hreach, ht', ⟨hcount, htable⟩, ?_, ?_⟩
  · rw [← hdest, hpath]
  · intro heq
    exact hwires (congrArg some heq)

/-- The older announce takes the place of the newer one that waits for rebroadcast, while the path
stays with the newer one. -/
theorem olderAnnounce_advertised : ¬ ∀ {t t' : Transport} {i : IfaceId} {wire : Bytes} {now : Nat}
    {e : AnnounceEntry} {path : PathEntry}, Reachable t → t.step (.inbound i wire now) = .ok t' →
    Queues ⟨t, .inbound i wire now, t'⟩ e → t'.paths.get e.destHash = some path →
    e.announceWire = path.announceWire := by
  intro hall
  obtain ⟨t, t', e, path, ht, h, hq, hpath, hne⟩ := olderAnnounce_heard
  exact hne (hall ht h hq hpath)

theorem queued_matches_path_older : ∃ t t' e p, Reachable t ∧
    t.step (.inbound 0 (aliceAnnounceAt 1001 5) 1001) = .ok t' ∧
    arriving (aliceAnnounceAt 1001 5) = some p ∧ t'.announceTable.get e.destHash = some e ∧
    e.announceWire = (reissued t.localIdentity p).wireBytes := by
  obtain ⟨t, t', e, -, ht, h, hq, -, -⟩ := olderAnnounce_heard
  obtain ⟨p, va, path, hw, -, -, hget, -, hwire, -⟩ := queued_matches_path ht h hq
  exact ⟨t, t', e, p, ht, h, hw, hget, hwire⟩

end Transport
end Reticulum
