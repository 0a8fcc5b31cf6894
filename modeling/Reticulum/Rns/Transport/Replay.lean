import Reticulum.Rns.Transport.Entries

/-!
# Replayed and reordered announces

A random hash in the window of an entry marks an announce that was taken in before. It keeps the
announce from being passed on again. The path is another matter: an announce with no more hops than
the entry always replaces it, and one with more hops replaces a live entry only if it was emitted
after every announce of the window, which the installed announce may have left by then.
-/

namespace Reticulum

namespace PathEntry

/-- The random hash of the announce in `announce_wire`. -/
def cachedHash (e : PathEntry) : Option Bytes := do
  let p ← (Packet.fromWireBytes e.announceWire).toOption
  let body ← (parseAnnounceBody p.data p.contextFlag).toOption
  return body.randomHash

/-- The emission timestamp of the announce in `announce_wire`. -/
def emittedAt (e : PathEntry) : Option Nat := e.cachedHash.map parseRandomBlobTimestamp

theorem cachedHash_eq [CryptoLib] {e : PathEntry} {p : Packet} {va : ValidatedAnnounce}
    (hp : Packet.fromWireBytes e.announceWire = .ok p)
    (hv : Identity.validateAnnounce p = some va) : e.cachedHash = some va.randomHash := by
  obtain ⟨body, hb⟩ := validateAnnounce_eq_some hv
  have hbody : (parseAnnounceBody p.data p.contextFlag).toOption = some body := by
    rw [hb.parse]
    rfl
  unfold cachedHash
  rw [hp, hb.randomHash]
  change ((parseAnnounceBody p.data p.contextFlag).toOption.bind fun body =>
    some body.randomHash) = _
  rw [hbody, Option.bind_some]

@[simp] theorem noted_cachedHash (e : PathEntry) (blob : Bytes) :
    (e.noted blob).cachedHash = e.cachedHash := by
  unfold cachedHash
  rw [noted_announceWire]

/-- Recording a random hash that is in the window changes nothing. -/
theorem noted_of_mem {e : PathEntry} {blob : Bytes} (h : blob ∈ e.randomBlobs) :
    e.noted blob = e := if_pos h

end PathEntry

theorem replacesPath_of_le {e : PathEntry} {hops : UInt8} {randomHash : Bytes} {now : Nat}
    (h : hops ≤ e.hops) : replacesPath (some e) hops randomHash now = true := by
  simp [replacesPath, h]

/-- Against a live entry, an announce with more hops has to be younger than the whole window. -/
theorem replacesPath_iff_of_gt {e : PathEntry} {hops : UInt8} {randomHash : Bytes} {now : Nat}
    (h : e.hops < hops) (hlive : now < e.expiresMs) :
    replacesPath (some e) hops randomHash now = true ↔
      ∀ b ∈ e.randomBlobs, parseRandomBlobTimestamp b < parseRandomBlobTimestamp randomHash := by
  have hle : ¬ hops ≤ e.hops := UInt8.not_le.mpr h
  have hx : ¬ e.expiresMs ≤ now := by omega
  simp [replacesPath, hle, hx]

/-- A hash of the window is not younger than itself. -/
theorem not_replacesPath_of_mem {e : PathEntry} {hops : UInt8} {randomHash : Bytes} {now : Nat}
    (h : e.hops < hops) (hlive : now < e.expiresMs) (hmem : randomHash ∈ e.randomBlobs) :
    replacesPath (some e) hops randomHash now = false := by
  apply eq_false_of_ne_true
  intro hr
  have hlt := (replacesPath_iff_of_gt h hlive).mp hr randomHash hmem
  omega

namespace Transport
section
variable [CryptoLib]
variable {t t' : Transport} {d : Bytes} {e : PathEntry} {i : IfaceId} {wire : Bytes} {now : Nat}
  {p : Packet} {va : ValidatedAnnounce}

/-- A replay over more hops than the path it would replace leaves the whole entry alone; so does one
that is dropped. A replay over no more hops is taken in as the new path, and the window stays. -/
theorem replay_path (he : t.paths.get d = some e) (hlive : now < e.expiresMs)
    (h : t.step (.inbound i wire now) = .ok t') (hw : arriving wire = some p)
    (hv : Identity.validateAnnounce p = some va) (hd : va.destinationHash = d)
    (hmem : va.randomHash ∈ e.randomBlobs) :
    (e.hops < p.hops → t'.paths.get d = some e) ∧
      (t.hasSeen p = true ∨ t.accepts p = none → t'.paths.get d = some e) ∧
      (p.hops ≤ e.hops → t.hasSeen p = false → t.accepts p = some va →
        t'.paths.get d = some (t.learnedPath va i p now)) := by
  subst hd
  rcases inbound_path h hw hv with ⟨hdrop, hpaths⟩ | ⟨hs, ha, hpath⟩
  · have hsame : t'.paths.get va.destinationHash = some e := by rw [hpaths, he]
    refine ⟨fun _ => hsame, fun _ => hsame, ?_⟩
    intro _ hs ha
    rcases hdrop with hs' | ha'
    · cases hs.symm.trans hs'
    · cases ha.symm.trans ha'
  · refine ⟨?_, ?_, ?_⟩
    · intro hgt
      rw [hpath, keptPath_of_not_replaces he (not_replacesPath_of_mem hgt hlive hmem),
        PathEntry.noted_of_mem hmem]
    · intro hdrop
      rcases hdrop with hs' | ha'
      · cases hs.symm.trans hs'
      · cases ha.symm.trans ha'
    · intro hle _ _
      have hreplaces : replacesPath (some e) p.hops va.randomHash now = true :=
        replacesPath_of_le hle
      rw [hpath, keptPath_of_replaces he hreplaces, PathEntry.noted_of_mem]
      simpa [learnedPath, he] using hmem

/-! ### Freshness -/

/-- If the call leaves a longer path, the announce behind it was emitted after the one behind
`e`. -/
def LongerOnlyIfFresher (d : Bytes) (e : PathEntry) (t' : Transport) : Prop :=
  ∀ e', t'.paths.get d = some e' → e.hops < e'.hops →
    ∃ τ τ', e.emittedAt = some τ ∧ e'.emittedAt = some τ' ∧ τ < τ'

/-- The packet is an announce over more hops than `e` that is younger than every random hash of the
window, but not younger than the announce behind `e`. -/
def Outdates (t : Transport) (d : Bytes) (e : PathEntry) (wire : Bytes) : Prop :=
  ∃ p va τ, arriving wire = some p ∧ t.hasSeen p = false ∧ t.accepts p = some va ∧
    va.destinationHash = d ∧ e.hops < p.hops ∧ e.emittedAt = some τ ∧
    (∀ b ∈ e.randomBlobs, parseRandomBlobTimestamp b < parseRandomBlobTimestamp va.randomHash) ∧
    parseRandomBlobTimestamp va.randomHash ≤ τ

theorem learnedPath_cachedHash (hw : arriving wire = some p)
    (hv : Identity.validateAnnounce p = some va) :
    (t.learnedPath va i p now).cachedHash = some va.randomHash := by
  have hwire : (t.learnedPath va i p now).announceWire = (reissued t.localIdentity p).wireBytes :=
    rfl
  obtain ⟨hc, hv'⟩ := reissued_caches hv (one_le_hops hw) hwire rfl
  exact PathEntry.cachedHash_eq hc.parses hv'

theorem learnedPath_emittedAt (hw : arriving wire = some p)
    (hv : Identity.validateAnnounce p = some va) :
    (t.learnedPath va i p now).emittedAt = some (parseRandomBlobTimestamp va.randomHash) := by
  rw [PathEntry.emittedAt, learnedPath_cachedHash hw hv, Option.map_some]

theorem EntriesSound.emittedAt (hi : EntriesSound t) (he : t.paths.get d = some e) :
    ∃ h, e.cachedHash = some h ∧ e.emittedAt = some (parseRandomBlobTimestamp h) := by
  obtain ⟨p, va, hc, hv, -⟩ := (hi d e he).cached
  have hh := PathEntry.cachedHash_eq hc.parses hv
  exact ⟨va.randomHash, hh, by rw [PathEntry.emittedAt, hh, Option.map_some]⟩

theorem longerOnlyIfFresher_iff (hi : EntriesSound t) (he : t.paths.get d = some e)
    (hlive : now < e.expiresMs) (h : t.step (.inbound i wire now) = .ok t') :
    LongerOnlyIfFresher d e t' ↔ ¬ Outdates t d e wire := by
  obtain ⟨h₀, -, hτ⟩ := hi.emittedAt he
  constructor
  · rintro hfresher ⟨p, va, τ, hw, hs, ha, hd, hgt, hτ', hall, hle⟩
    subst hd
    cases hτ.symm.trans hτ'
    have hv := (accepts_checks ha).1
    rcases inbound_path h hw hv with ⟨hdrop, -⟩ | ⟨-, -, hpath⟩
    · rcases hdrop with hs' | ha'
      · cases hs.symm.trans hs'
      · cases ha.symm.trans ha'
    · rw [keptPath_of_replaces he ((replacesPath_iff_of_gt hgt hlive).mpr hall)] at hpath
      obtain ⟨τ, τ', h₁, h₂, hlt⟩ := hfresher _ hpath (by simpa [learnedPath] using hgt)
      rw [PathEntry.emittedAt, PathEntry.noted_cachedHash] at h₂
      cases hτ.symm.trans h₁
      cases (learnedPath_emittedAt hw hv).symm.trans h₂
      omega
  · intro hno e' he' hgt
    cases step_entry h d with
    | keep hp _ =>
      cases (hp.symm.trans he').symm.trans he
      exact absurd hgt (UInt8.lt_irrefl _)
    | @takeIn _ _ _ p va _ hw hs ha hd hp _ =>
      subst hd
      cases hp.symm.trans he'
      have hv := (accepts_checks ha).1
      cases hr : replacesPath (some e) p.hops va.randomHash now with
      | false =>
        rw [keptPath_of_not_replaces he hr, PathEntry.noted_hops] at hgt
        exact absurd hgt (UInt8.lt_irrefl _)
      | true =>
        rw [keptPath_of_replaces he hr, PathEntry.noted_hops] at hgt
        refine ⟨_, parseRandomBlobTimestamp va.randomHash, hτ, ?_, ?_⟩
        · rw [PathEntry.emittedAt, PathEntry.noted_cachedHash, keptPath_of_replaces he hr]
          exact learnedPath_emittedAt hw hv
        · by_contra hge
          exact hno ⟨p, va, _, hw, hs, ha, rfl, hgt, hτ, (replacesPath_iff_of_gt hgt hlive).mp hr,
            Nat.not_lt.mp hge⟩

/-- The call records a random hash in a full window, without replacing the path, and pushes out the
random hash of the announce that the path was learned from. -/
def SlidesOut (r : Rec Transport Action) : Prop :=
  ∃ i wire now p va e, r.act = .inbound i wire now ∧ arriving wire = some p ∧
    r.pre.hasSeen p = false ∧ r.pre.accepts p = some va ∧
    r.pre.paths.get va.destinationHash = some e ∧
    replacesPath (some e) p.hops va.randomHash now = false ∧ va.randomHash ∉ e.randomBlobs ∧
    e.randomBlobs.length = PathTable.maxRandomBlobs ∧ e.randomBlobs.head? = e.cachedHash

/-- Every path was learned from an announce whose random hash is in the window. -/
def Represented (t : Transport) : Prop :=
  ∀ d e, t.paths.get d = some e → ∃ h ∈ e.randomBlobs, e.cachedHash = some h

omit [CryptoLib] in
theorem mem_pushBlob_of_mem {blobs : List Bytes} {b blob : Bytes} (hb : b ∈ blobs)
    (h : blobs.length = PathTable.maxRandomBlobs → blobs.head? ≠ some b)
    (hle : blobs.length ≤ PathTable.maxRandomBlobs) : b ∈ PathTable.pushBlob blobs blob := by
  simp only [PathTable.pushBlob]
  split
  · rename_i hfull
    have hlen : blobs.length = PathTable.maxRandomBlobs := by
      rw [List.length_append, List.length_singleton] at hfull
      omega
    cases blobs with
    | nil => cases hb
    | cons x rest =>
      rcases List.mem_cons.mp hb with rfl | hb
      · exact absurd rfl (h hlen)
      · simp [hb]
  · exact List.mem_append_left _ hb

theorem represented_step {r : Rec Transport Action} (hi : EntriesSound r.pre)
    (hrep : Represented r.pre) (h : Steps r.pre r.act r.post) (hno : ¬ SlidesOut r) :
    Represented r.post := by
  obtain ⟨t, a, t'⟩ := r
  intro d e he
  cases step_entry h d with
  | keep hp _ => exact hrep d e (hp ▸ he)
  | @takeIn i wire now p va _ hw hs ha hd hp _ =>
    subst hd
    cases hp.symm.trans he
    have hv := (accepts_checks ha).1
    -- a new path is represented by the hash just recorded
    have hnew : t.keptPath va i p now = t.learnedPath va i p now →
        ∃ h ∈ ((t.keptPath va i p now).noted va.randomHash).randomBlobs,
          ((t.keptPath va i p now).noted va.randomHash).cachedHash = some h := by
      intro hkept
      refine ⟨va.randomHash, PathEntry.mem_noted_self _ _, ?_⟩
      rw [PathEntry.noted_cachedHash, hkept, learnedPath_cachedHash hw hv]
    cases hget : t.paths.get va.destinationHash with
    | none => exact hnew (keptPath_of_none hget)
    | some e₀ =>
      cases hr : replacesPath (some e₀) p.hops va.randomHash now with
      | true => exact hnew (keptPath_of_replaces hget hr)
      | false =>
        obtain ⟨b, hb, hcached⟩ := hrep _ e₀ hget
        rw [keptPath_of_not_replaces hget hr, PathEntry.noted_cachedHash]
        refine ⟨b, ?_, hcached⟩
        by_cases hmem : va.randomHash ∈ e₀.randomBlobs
        · rwa [PathEntry.noted_of_mem hmem]
        · have hnoted : (e₀.noted va.randomHash).randomBlobs =
              PathTable.pushBlob e₀.randomBlobs va.randomHash := by
            rw [PathEntry.noted, if_neg hmem]
          rw [hnoted]
          refine mem_pushBlob_of_mem hb ?_ (hi _ _ hget).window.length_le
          intro hfull hhead
          exact hno ⟨i, wire, now, p, va, e₀, rfl, hw, hs, ha, hget, hr, hmem, hfull,
            hhead.trans hcached.symm⟩
  | expire _ _ hp _ => cases hp.symm.trans he

theorem represented_of_run {id₀ : Identity} {enabled : Bool} {cfg : IfaceId → Interface.Config}
    {rs : List (Rec Transport Action)} (hrun : Run Steps (new id₀ enabled cfg) rs t)
    (hno : ∀ r ∈ rs, ¬ SlidesOut r) : Represented t := by
  have hboth : EntriesSound t ∧ Represented t := by
    refine hrun.inv_of (I := fun s => EntriesSound s ∧ Represented s) ⟨?_, ?_⟩ hno ?_
    · exact (reachable_new id₀ enabled cfg).entriesSound
    · intro d e he
      cases he
    · intro s a s' hs hstep hr
      exact ⟨entriesSound_step hs.1 hstep, represented_step hs.1 hs.2 hstep hr⟩
  exact hboth.2

theorem Represented.not_outdates (h : Represented t) (he : t.paths.get d = some e) :
    ¬ Outdates t d e wire := by
  rintro ⟨p, va, τ, -, -, -, -, -, hτ, hall, hle⟩
  obtain ⟨b, hb, hcached⟩ := h d e he
  rw [PathEntry.emittedAt, hcached, Option.map_some] at hτ
  have hlt := hall b hb
  cases hτ
  omega

omit [CryptoLib] in
theorem length_pushBlob_le (blobs : List Bytes) (blob : Bytes) :
    (PathTable.pushBlob blobs blob).length ≤ blobs.length + 1 := by
  simp only [PathTable.pushBlob]
  split <;> simp

/-- A window grows by at most one random hash a call. -/
theorem length_blobs_le {id₀ : Identity} {enabled : Bool} {cfg : IfaceId → Interface.Config}
    {rs : List (Rec Transport Action)} (hrun : Run Steps (new id₀ enabled cfg) rs t) (d : Bytes) :
    (t.blobs d).length ≤ rs.length := by
  induction hrun with
  | nil => exact Nat.le_refl 0
  | @snoc rs s s' a _ hs ih =>
    rw [List.length_append, List.length_singleton]
    cases step_entry hs d with
    | keep hp _ =>
      unfold blobs at ih ⊢
      rw [hp]
      omega
    | @takeIn i wire now p va _ _ _ _ hd hp _ =>
      subst hd
      have hkept : (s.keptPath va i p now).randomBlobs.length =
          (s.blobs va.destinationHash).length := congrArg List.length keptPath_randomBlobs
      have hblobs : s'.blobs va.destinationHash =
          ((s.keptPath va i p now).noted va.randomHash).randomBlobs := by
        rw [blobs, hp, Option.map_some, Option.getD_some]
      rw [hblobs, PathEntry.noted]
      split
      · omega
      · have hpush := length_pushBlob_le (s.keptPath va i p now).randomBlobs va.randomHash
        simp only
        omega
    | expire _ _ hp _ =>
      rw [blobs, hp]
      exact Nat.zero_le _

/-- A short run fills no window. -/
theorem not_slidesOut_of_short {id₀ : Identity} {enabled : Bool} {cfg : IfaceId → Interface.Config}
    {rs : List (Rec Transport Action)} (hrun : Run Steps (new id₀ enabled cfg) rs t)
    (hshort : rs.length ≤ PathTable.maxRandomBlobs) : ∀ r ∈ rs, ¬ SlidesOut r := by
  rintro r hr ⟨i, wire, now, p, va, e, -, -, -, -, he, -, -, hfull, -⟩
  obtain ⟨before, after, rfl⟩ := List.append_of_mem hr
  obtain ⟨hpre, -, -⟩ := hrun.split_at
  have hle := length_blobs_le hpre va.destinationHash
  rw [blobs, he, Option.map_some, Option.getD_some, hfull] at hle
  rw [List.length_append, List.length_cons] at hshort
  omega

/-- A longer path that replaces a live one is fresher, unless its announce is younger than the whole
window but not younger than the installed one. In a run in which no call pushes an installed
announce out of its window, that never happens. -/
theorem longer_path_fresher :
    (∀ {t t' : Transport} {d : Bytes} {e : PathEntry} {i : IfaceId} {wire : Bytes} {now : Nat},
      Reachable t → t.paths.get d = some e → now < e.expiresMs →
      t.step (.inbound i wire now) = .ok t' →
      (LongerOnlyIfFresher d e t' ↔ ¬ Outdates t d e wire)) ∧
    ∀ {id₀ : Identity} {enabled : Bool} {cfg : IfaceId → Interface.Config}
      {rs : List (Rec Transport Action)} {t : Transport},
      Run Steps (new id₀ enabled cfg) rs t → (∀ r ∈ rs, ¬ SlidesOut r) →
      ∀ r ∈ rs, ∀ i wire now d e, r.act = .inbound i wire now → r.pre.paths.get d = some e →
        now < e.expiresMs → LongerOnlyIfFresher d e r.post := by
  refine ⟨fun ht he hlive h => longerOnlyIfFresher_iff ht.entriesSound he hlive h, ?_⟩
  rintro id₀ enabled cfg rs t hrun hno r hr i wire now d e hact he hlive
  obtain ⟨before, after, rfl⟩ := List.append_of_mem hr
  obtain ⟨hpre, hstep, -⟩ := hrun.split_at
  have hrep := represented_of_run hpre fun r' hr' => hno r' (List.mem_append_left _ hr')
  have hsound := ((reachable_new id₀ enabled cfg).run hpre).entriesSound
  rw [hact] at hstep
  exact (longerOnlyIfFresher_iff hsound he hlive hstep).mpr (hrep.not_outdates he)

end

open Vectors
attribute [local instance] lib

/-! ### A replay -/

def aliceRandomHash : Bytes := bytes 10 0xa1a2a3a4a5006553f100

set_option maxRecDepth 100000 in
theorem arriving_aliceReplay : ([0, 1] : List UInt8).map (fun hops =>
    (arriving (aliceReplay hops)).map fun p => (p.hops, (Identity.validateAnnounce p).map fun va =>
      (va.destinationHash, va.randomHash))) =
    [some (1, some (aliceDest, aliceRandomHash)), some (2, some (aliceDest, aliceRandomHash))] := by
  decide +kernel

set_option maxRecDepth 100000 in
theorem heardAlice_replay : (relay.steps heardAlice).toOption.map (fun t =>
    ((t.paths.get aliceDest).map fun e =>
        (e.hops, e.expiresMs, decide (aliceRandomHash ∈ e.randomBlobs)),
      (t.step (.inbound 0 (aliceReplay 0) 2000)).toOption.map fun t' =>
        (t'.paths.get aliceDest).map PathEntry.expiresMs,
      (t.step (.inbound 0 (aliceReplay 1) 2000)).toOption.isSome)) =
    some (some (1, 3601000, true), some (some 3602000), true) := by
  decide +kernel

/-- Alice's announce again, a second later and with another context byte, prolongs the path. -/
theorem aliceReplay_prolongs_path : ¬ ∀ {t t' : Transport} {d : Bytes} {e : PathEntry} {i : IfaceId}
    {wire : Bytes} {now : Nat} {p : Packet} {va : ValidatedAnnounce}, Reachable t →
    t.paths.get d = some e → now < e.expiresMs → t.step (.inbound i wire now) = .ok t' →
    arriving wire = some p → Identity.validateAnnounce p = some va → va.destinationHash = d →
    va.randomHash ∈ e.randomBlobs → ∃ e', t'.paths.get d = some e' ∧ e'.nextHop = e.nextHop ∧
      e'.hops = e.hops ∧ e'.receivingInterface = e.receivingInterface ∧
      e'.announceWire = e.announceWire ∧ e'.expiresMs = e.expiresMs := by
  intro hall
  obtain ⟨t, -, ht, hf⟩ :=
    reachable_of_steps (reachable_new bob true fun _ => cfg) heardAlice_replay
  obtain ⟨hentry, hf⟩ := Prod.mk.inj hf
  obtain ⟨hnext, -⟩ := Prod.mk.inj hf
  obtain ⟨e, he, hentry⟩ := Option.map_eq_some_iff.mp hentry
  simp only [Prod.mk.injEq] at hentry
  obtain ⟨-, hx, hblobs⟩ := hentry
  obtain ⟨t', hstep, hpath⟩ := Option.map_eq_some_iff.mp hnext
  obtain ⟨p, hw, hp⟩ := Option.map_eq_some_iff.mp (List.cons.inj arriving_aliceReplay).1
  obtain ⟨va, hv, hva⟩ := Option.map_eq_some_iff.mp (Prod.mk.inj hp).2
  obtain ⟨hd, hr⟩ := Prod.mk.inj hva
  obtain ⟨e', he', -, -, -, -, hx'⟩ := hall ht he (by omega) (toOption_eq_some hstep) hw hv hd
    (hr ▸ of_decide_eq_true hblobs)
  rw [he', Option.map_some, hx', hx] at hpath
  cases hpath

/-- Over one more hop, the same announce changes nothing. -/
theorem replay_path_alice : ∃ t t' e, Reachable t ∧ t.paths.get aliceDest = some e ∧
    t.step (.inbound 0 (aliceReplay 1) 2000) = .ok t' ∧ t'.paths.get aliceDest = some e := by
  obtain ⟨t, -, ht, hf⟩ :=
    reachable_of_steps (reachable_new bob true fun _ => cfg) heardAlice_replay
  obtain ⟨hentry, hf⟩ := Prod.mk.inj hf
  obtain ⟨-, hnext⟩ := Prod.mk.inj hf
  obtain ⟨e, he, hentry⟩ := Option.map_eq_some_iff.mp hentry
  simp only [Prod.mk.injEq] at hentry
  obtain ⟨hhops, hx, hblobs⟩ := hentry
  obtain ⟨t', hstep⟩ := Option.isSome_iff_exists.mp hnext
  obtain ⟨p, hw, hp⟩ :=
    Option.map_eq_some_iff.mp (List.cons.inj (List.cons.inj arriving_aliceReplay).2).1
  obtain ⟨hphops, hp⟩ := Prod.mk.inj hp
  obtain ⟨va, hv, hva⟩ := Option.map_eq_some_iff.mp hp
  obtain ⟨hd, hr⟩ := Prod.mk.inj hva
  have hsame := replay_path he (by omega) (toOption_eq_some hstep) hw hv hd
    (hr ▸ of_decide_eq_true hblobs)
  exact ⟨t, t', e, ht, he, toOption_eq_some hstep, hsame.1 (by rw [hhops, hphops]; decide)⟩

/-! ### A later announce -/

set_option maxRecDepth 100000 in
theorem fresherAlice_path : (relay.steps [.registerInterface 0,
    .inbound 0 (aliceAnnounceAt 1000 0) 1000]).toOption.map (fun t =>
      ((t.paths.get aliceDest).map fun e => (e.hops, e.expiresMs),
        (t.step (.inbound 0 (aliceAnnounceAt 2000 1) 1000)).toOption.map fun t' =>
          (t'.paths.get aliceDest).map PathEntry.hops)) =
    some (some (1, 3601000), some (some 2)) := by
  decide +kernel

/-- A later announce over one more hop replaces the path, and it is fresher. -/
theorem longer_path_fresher_alice : ∃ t t' e e', Reachable t ∧ t.paths.get aliceDest = some e ∧
    t.step (.inbound 0 (aliceAnnounceAt 2000 1) 1000) = .ok t' ∧
    ¬ Outdates t aliceDest e (aliceAnnounceAt 2000 1) ∧ t'.paths.get aliceDest = some e' ∧
    ∃ τ τ', e.emittedAt = some τ ∧ e'.emittedAt = some τ' ∧ τ < τ' := by
  obtain ⟨t, hsteps, ht, hf⟩ :=
    reachable_of_steps (reachable_new bob true fun _ => cfg) fresherAlice_path
  obtain ⟨hentry, hnext⟩ := Prod.mk.inj hf
  obtain ⟨e, he, hentry⟩ := Option.map_eq_some_iff.mp hentry
  obtain ⟨hhops, hx⟩ := Prod.mk.inj hentry
  obtain ⟨t', hstep, hpath⟩ := Option.map_eq_some_iff.mp hnext
  obtain ⟨e', he', hhops'⟩ := Option.map_eq_some_iff.mp hpath
  have hstep := toOption_eq_some hstep
  obtain ⟨rs, hrun, hacts⟩ := run_of_steps hsteps
  have hrun' := hrun.snoc hstep
  have hlen : rs.length = 2 := by rw [← List.length_map (f := Rec.act), hacts]; rfl
  have hshort := not_slidesOut_of_short hrun' (by simp [hlen, PathTable.maxRandomBlobs])
  have hfresher := longer_path_fresher.2 hrun' hshort ⟨t, _, t'⟩ (by simp) 0
    (aliceAnnounceAt 2000 1) 1000 aliceDest e rfl he (by omega)
  exact ⟨t, t', e, e', ht, he, hstep,
    (longer_path_fresher.1 ht he (by omega) hstep).mp hfresher, he',
    hfresher e' he' (by rw [hhops, hhops']; decide)⟩

end Transport
end Reticulum
