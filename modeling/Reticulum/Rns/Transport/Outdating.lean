import Reticulum.Lib.Endian
import Reticulum.Rns.Transport.Delivery
import Reticulum.Rns.Transport.Replay

/-!
# A path that outlasts its window

Announces over more hops than the path leave it alone as long as its own random hash is in the
window, but each takes a place there. 32 of them push that hash out, and nothing then tells the next
one that it is older than the path: it replaces it.
-/

namespace Reticulum

theorem parseRandomBlobTimestamp_announceRandomHash {randomPrefix : Bytes}
    (h : randomPrefix.length = 5) (timestampSecs : Nat) :
    parseRandomBlobTimestamp (announceRandomHash randomPrefix timestampSecs) =
      timestampSecs % 2 ^ 40 := by
  have hlen := length_announceRandomHash h timestampSecs
  have happend : ∀ k, (announceRandomHash randomPrefix timestampSecs).byteAt (5 + k) =
      Bytes.byteAt ([4, 3, 2, 1, 0].map fun i => UInt8.ofNat (timestampSecs >>> (i * 8))) k := by
    intro k
    have hle : randomPrefix.length ≤ 5 + k := by omega
    rw [announceRandomHash, Bytes.byteAt, Bytes.byteAt, List.getD_eq_getElem?_getD,
      List.getElem?_append_right hle, h, Nat.add_sub_cancel_left, List.getD_eq_getElem?_getD]
  have hpush : ∀ (n : Nat) (b : UInt8), (n <<< 8) ||| b.toNat = n * 256 + b.toNat := by
    intro n b
    exact Endian.shiftLeft_or b.toNat_lt n
  have h₅ := happend 0
  have h₆ := happend 1
  have h₇ := happend 2
  have h₈ := happend 3
  have h₉ := happend 4
  simp only [Bytes.byteAt, List.map_cons, List.getD_cons_zero, List.getD_cons_succ, Nat.reduceAdd]
    at h₅ h₆ h₇ h₈ h₉
  rw [parseRandomBlobTimestamp, if_neg (by omega)]
  simp only [Bytes.byteAt, List.foldl_cons, List.foldl_nil, hpush, h₅, h₆, h₇, h₈, h₉,
    UInt8.toNat_ofNat', Nat.shiftRight_eq_div_pow]
  omega

namespace Transport
section
variable [CryptoLib]

/-- `wire` brings an announce for `d` under the key `pub`. -/
structure Announces (d pub wire : Bytes) (p : Packet) (va : ValidatedAnnounce) : Prop where
  arrives : arriving wire = some p
  valid : Identity.validateAnnounce p = some va
  destinationHash : va.destinationHash = d
  publicKey : va.publicKey = pub

/-- The node would take any such announce in. -/
structure Listens (t : Transport) (d pub : Bytes) : Prop where
  known : ∀ k, t.publicKeyFor d = some k → k = pub
  other : identityHashOf pub ≠ t.localIdentity.identityHash
  welcome : t.isBlackholed (identityHashOf pub) = false

theorem Listens.accepts {t : Transport} {d pub wire : Bytes} {p : Packet} {va : ValidatedAnnounce}
    (h : t.Listens d pub) (ha : Announces d pub wire p va) : t.accepts p = some va := by
  obtain ⟨-, hv, rfl, rfl⟩ := ha
  exact accepts_of_validateAnnounce hv h.known h.other h.welcome

theorem Listens.hears {t : Transport} {d pub wire : Bytes} {p : Packet} {va : ValidatedAnnounce}
    (h : t.Listens d pub) (ha : Announces d pub wire p va) (hs : t.hasSeen p = false) (i : IfaceId)
    (now : Nat) : ∃ t', t.step (.inbound i wire now) = .ok t' ∧ t'.Listens d pub ∧
      t'.hashlist = t.recorded p ∧
      t'.paths.get d = some ((t.keptPath va i p now).noted va.randomHash) := by
  have haccepts := h.accepts ha
  obtain ⟨hw, hv, rfl, rfl⟩ := ha
  obtain ⟨body, hb⟩ := validateAnnounce_eq_some hv
  have hk : p.handler = .announce := Packet.handler_eq_announce.mpr hb.packetType
  obtain ⟨s, -, heq⟩ := handleAnnounce_takeIn (t := seen { t with out := [] } p) i now haccepts
  rw [step_inbound_announce hw hs hk]
  refine ⟨_, heq, ⟨?_, h.other, h.welcome⟩, rfl, get_noteRandomBlob_learnedPaths⟩
  intro k hk
  rw [publicKeyFor, Dict.lookup_insert_eq, if_pos rfl] at hk
  exact (Option.some.inj hk).symm

/-! ### Filling the window -/

/-- `n` announces that the node takes for new ones, each younger than the one before. -/
structure Series (t : Transport) (d pub : Bytes) (n : Nat) (wire : Nat → Bytes) (p : Nat → Packet)
    (va : Nat → ValidatedAnnounce) : Prop where
  announces : ∀ k < n, Announces d pub (wire k) (p k) (va k)
  unseen : ∀ k < n, t.hasSeen (p k) = false
  distinct : ∀ j k, j < k → k < n → dedupHash (p k) ≠ dedupHash (p j)
  younger : ∀ j k, j < k → k < n → parseRandomBlobTimestamp (va j).randomHash <
    parseRandomBlobTimestamp (va k).randomHash

/-- The window after `n` announces, when it held `b` before. -/
def windowAfter (b : Bytes) (va : Nat → ValidatedAnnounce) (n : Nat) : List Bytes :=
  (b :: (List.range n).map fun k => (va k).randomHash).drop (n + 1 - PathTable.maxRandomBlobs)

omit [CryptoLib] in
theorem pushBlob_windowAfter {n : Nat} (h : n < PathTable.maxRandomBlobs) (b : Bytes)
    (va : Nat → ValidatedAnnounce) :
    PathTable.pushBlob (windowAfter b va n) (va n).randomHash = windowAfter b va (n + 1) := by
  have hzero : n + 1 - PathTable.maxRandomBlobs = 0 := by omega
  unfold windowAfter
  rw [hzero, List.drop_zero, List.range_succ, List.map_append, List.map_singleton,
    ← List.cons_append, PathTable.pushBlob]
  simp only [List.length_append, List.length_cons, List.length_map, List.length_range,
    List.length_nil]
  split
  · congr 1
    omega
  · rw [show n + 1 + 1 - PathTable.maxRandomBlobs = 0 by omega, List.drop_zero]

/-- While the announces of the series fill the window, the path stays what it was. -/
theorem fill_window {t : Transport} {d pub b : Bytes} {e : PathEntry} {n : Nat} {wire : Nat → Bytes}
    {p : Nat → Packet} {va : Nat → ValidatedAnnounce} (hl : t.Listens d pub)
    (he : t.paths.get d = some e) (hb : e.randomBlobs = [b])
    (hseries : t.Series d pub n wire p va) (hlonger : ∀ k < n, e.hops < (p k).hops)
    (holder : ∀ k < n, parseRandomBlobTimestamp (va k).randomHash < parseRandomBlobTimestamp b)
    (i : IfaceId) {now : Nat} (hlive : now < e.expiresMs) :
    ∀ m ≤ n, m ≤ PathTable.maxRandomBlobs → ∃ t',
      t.steps ((List.range m).map fun k => .inbound i (wire k) now) = .ok t' ∧ t'.Listens d pub ∧
      t'.paths.get d = some { e with randomBlobs := windowAfter b va m } ∧
      ∀ k < n, m ≤ k → t'.hasSeen (p k) = false := by
  intro m hm hmax
  induction m with
  | zero =>
    refine ⟨t, rfl, hl, ?_, fun k hk _ => hseries.unseen k hk⟩
    have hwindow : windowAfter b va 0 = e.randomBlobs := by
      rw [hb]
      rfl
    rw [he, hwindow]
  | succ m ih =>
    obtain ⟨t₁, hsteps, hl₁, he₁, hunseen⟩ := ih (by omega) (by omega)
    have ha := hseries.announces m (by omega)
    have hs := hunseen m (by omega) (Nat.le_refl m)
    obtain ⟨t₂, hstep, hl₂, hlist, hpath⟩ := hl₁.hears ha hs i now
    refine ⟨t₂, ?_, hl₂, ?_, ?_⟩
    · rw [List.range_succ, List.map_append, List.map_singleton]
      exact steps_concat hsteps hstep
    · -- the window still holds `b`, and nothing from the series twice
      have hwindow : windowAfter b va m = b :: (List.range m).map fun k => (va k).randomHash := by
        rw [windowAfter, show m + 1 - PathTable.maxRandomBlobs = 0 by omega, List.drop_zero]
      have hkeep : replacesPath (some { e with randomBlobs := windowAfter b va m }) (p m).hops
          (va m).randomHash now = false := by
        apply eq_false_of_ne_true
        intro hr
        have hlong : ({ e with randomBlobs := windowAfter b va m } : PathEntry).hops < (p m).hops :=
          hlonger m (by omega)
        have hlt := (replacesPath_iff_of_gt hlong hlive).mp hr b
          (by rw [hwindow]; exact List.mem_cons_self ..)
        have hlt' := holder m (by omega)
        omega
      have hnew : (va m).randomHash ∉ windowAfter b va m := by
        rw [hwindow, List.mem_cons, List.mem_map]
        rintro (heq | ⟨k, hk, heq⟩)
        · have hlt := holder m (by omega)
          rw [heq] at hlt
          omega
        · have hlt := hseries.younger k m (List.mem_range.mp hk) (by omega)
          rw [heq] at hlt
          omega
      have hget := he₁
      rw [← ha.destinationHash] at hget
      rw [hpath, keptPath_of_not_replaces hget hkeep, PathEntry.noted, if_neg hnew,
        pushBlob_windowAfter (by omega)]
    · intro k hk hmk
      have hne := hseries.distinct m k (by omega) hk
      rw [hasSeen, hlist, contains_recorded, hunseen k hk (by omega)]
      simpa using hne

/-- The announce after a full window replaces the path, though the path is younger. -/
theorem outdates_of_series {t : Transport} {d pub b : Bytes} {e : PathEntry} {wire : Nat → Bytes}
    {p : Nat → Packet} {va : Nat → ValidatedAnnounce} (hl : t.Listens d pub)
    (he : t.paths.get d = some e) (hb : e.randomBlobs = [b])
    (hcached : e.emittedAt = some (parseRandomBlobTimestamp b))
    (hseries : t.Series d pub (PathTable.maxRandomBlobs + 1) wire p va)
    (hlonger : ∀ k ≤ PathTable.maxRandomBlobs, e.hops < (p k).hops)
    (holder : ∀ k ≤ PathTable.maxRandomBlobs,
      parseRandomBlobTimestamp (va k).randomHash < parseRandomBlobTimestamp b)
    (i : IfaceId) {now : Nat} (hlive : now < e.expiresMs) : ∃ t₁ t₂ e₁,
      t.steps ((List.range PathTable.maxRandomBlobs).map fun k => .inbound i (wire k) now) =
        .ok t₁ ∧ t₁.paths.get d = some e₁ ∧ now < e₁.expiresMs ∧
      t₁.step (.inbound i (wire PathTable.maxRandomBlobs) now) = .ok t₂ ∧
      Outdates t₁ d e₁ (wire PathTable.maxRandomBlobs) := by
  obtain ⟨t₁, hsteps, hl₁, he₁, hunseen⟩ := fill_window hl he hb hseries
    (fun k hk => hlonger k (by omega)) (fun k hk => holder k (by omega)) i hlive
    PathTable.maxRandomBlobs (by omega) (Nat.le_refl _)
  have ha := hseries.announces PathTable.maxRandomBlobs (by omega)
  have hs := hunseen PathTable.maxRandomBlobs (by omega) (Nat.le_refl _)
  obtain ⟨t₂, hstep, -⟩ := hl₁.hears ha hs i now
  refine ⟨t₁, t₂, _, hsteps, he₁, hlive, hstep, p _, va _, _, ha.arrives, hs, hl₁.accepts ha,
    ha.destinationHash, hlonger _ (Nat.le_refl _), hcached, ?_,
    Nat.le_of_lt (holder _ (Nat.le_refl _))⟩
  -- only the series is left in the window
  intro b' hb'
  simp only [windowAfter, Nat.add_sub_cancel_left, List.drop_one, List.tail_cons, List.mem_map,
    List.mem_range] at hb'
  obtain ⟨k, hk, rfl⟩ := hb'
  exact hseries.younger k _ hk (by omega)

end

open Vectors
attribute [local instance] lib

/-! ### Alice's announces -/

/-- Alice's announces, however old, are valid. -/
theorem announces_aliceAnnounceAt (seconds : Nat) {hops : UInt8} (h : hops < 255) : ∃ p va,
    Announces aliceDest alicePub (aliceAnnounceAt seconds hops) p va ∧ p.hops = hops + 1 ∧
      va.randomHash = announceRandomHash (bytes 5 0) seconds := by
  have hgenuine : aliceDestination.Genuine := Destination.genuine_of_new
    (Identity.genuine_of_fromPrivateBytes fromPrivateBytes_alice) new_aliceDestination
  obtain ⟨wire, hbuild⟩ : ∃ wire,
      aliceDestination.buildAnnounce (bytes 5 0) seconds [] [] false = .ok wire :=
    Destination.exists_buildAnnounce rfl rfl rfl (.inl rfl)
  obtain ⟨q, hq, -, -, -, -, -, hv⟩ :=
    Destination.validateAnnounce_of_buildAnnounce verifiesOwn_lib hgenuine hbuild
  obtain ⟨q', hwire, hpart, hflags, hhops⟩ : ∃ q' : Packet,
      aliceAnnounceAt seconds hops = q'.wireBytes ∧ q'.hashablePart = q.hashablePart ∧
        q'.flags = q.flags ∧ q'.hops = hops := by
    refine ⟨.ofFields q.flags hops q.transportId q.destinationHash q.context q.data q.ifac_clear
      q.transportId_length q.destinationHash_length, ?_,
      Packet.hashablePart_eq_iff.mpr ⟨rfl, rfl, rfl, rfl⟩, rfl, rfl⟩
    rw [aliceAnnounceAt, hbuild, ← hq, q.wireBytes_eq]
    rfl
  have hvalid : Identity.validateAnnounce q'.bumped = some (aliceDestination.validated
      (announceRandomHash (bytes 5 0) seconds) [] [] false) := by
    rw [validateAnnounce_bumped, validateAnnounce_congr hpart, hv]
    rw [Packet.contextFlag, hflags, Packet.contextFlag]
  refine ⟨q'.bumped, _, ⟨hwire ▸ arriving_wireBytes q', hvalid, rfl, rfl⟩, ?_, rfl⟩
  change (if q'.hops < 255 then q'.hops + 1 else q'.hops) = hops + 1
  rw [hhops, if_pos h]

/-- The announce that is heard first, and then older ones over one more hop. -/
def aliceAnnounces : Nat → Bytes
  | 0 => aliceAnnounceAt 2000 0
  | k + 1 => aliceAnnounceAt (1001 + k) 1

/-- The first two bytes of the packet hash. -/
def aliceTag (k : Nat) : Nat :=
  ((arriving (aliceAnnounces k)).map fun p =>
    ((dedupHash p).byteAt 0).toNat * 256 + ((dedupHash p).byteAt 1).toNat).getD 0

def aliceTags : List Nat := [
  65185, 30973, 54622, 51202, 41711, 63749, 56468, 22574, 60464, 1463, 18877, 32833, 6397, 22358,
  23090, 50342, 46620, 55739, 31510, 31216, 3164, 8556, 48146, 35363, 39648, 31596, 24416, 47502,
  6666, 52475, 46948, 61018, 48783, 25882, 28268]

-- a few announces at a time, for the memory the hashes take
set_option maxRecDepth 100000 in
theorem aliceTag_eq {k : Nat} (h : k < 35) : aliceTag k = aliceTags.getD k 0 := by
  have h₀ : ∀ k < 7, aliceTag k = aliceTags.getD k 0 := by decide +kernel
  have h₁ : ∀ k < 7, aliceTag (7 + k) = aliceTags.getD (7 + k) 0 := by decide +kernel
  have h₂ : ∀ k < 7, aliceTag (14 + k) = aliceTags.getD (14 + k) 0 := by decide +kernel
  have h₃ : ∀ k < 7, aliceTag (21 + k) = aliceTags.getD (21 + k) 0 := by decide +kernel
  have h₄ : ∀ k < 7, aliceTag (28 + k) = aliceTags.getD (28 + k) 0 := by decide +kernel
  obtain ⟨q, r, hr, rfl⟩ : ∃ q r, r < 7 ∧ k = 7 * q + r :=
    ⟨k / 7, k % 7, Nat.mod_lt _ (by decide), by omega⟩
  obtain rfl | rfl | rfl | rfl | rfl : q = 0 ∨ q = 1 ∨ q = 2 ∨ q = 3 ∨ q = 4 := by omega
  · simpa using h₀ r hr
  · exact h₁ r hr
  · exact h₂ r hr
  · exact h₃ r hr
  · exact h₄ r hr

theorem aliceAnnounces_dedupHash {j k : Nat} {p q : Packet} (hj : j < 35) (hk : k < 35)
    (hp : arriving (aliceAnnounces j) = some p) (hq : arriving (aliceAnnounces k) = some q)
    (h : dedupHash p = dedupHash q) : j = k := by
  have htag : aliceTags.getD j 0 = aliceTags.getD k 0 := by
    rw [← aliceTag_eq hj, ← aliceTag_eq hk, aliceTag, aliceTag, hp, hq, Option.map_some,
      Option.map_some, h]
  have hinj : ∀ j < 35, ∀ k < 35, aliceTags.getD j 0 = aliceTags.getD k 0 → j = k := by
    decide +kernel
  exact hinj j hj k hk htag

theorem series_aliceAnnounces {t : Transport} {p₀ : Packet} {p : Nat → Packet}
    {va : Nat → ValidatedAnnounce} (hseen : ∀ q, t.hasSeen q = decide (dedupHash q = dedupHash p₀))
    (h₀ : arriving (aliceAnnounces 0) = some p₀)
    (hann : ∀ k, Announces aliceDest alicePub (aliceAnnounces (k + 1)) (p k) (va k))
    (hrandom : ∀ k, (va k).randomHash = announceRandomHash (bytes 5 0) (1001 + k)) :
    t.Series aliceDest alicePub 33 (fun k => aliceAnnounces (k + 1)) p va := by
  constructor
  · intro k _
    exact hann k
  · intro k hk
    rw [hseen]
    apply decide_eq_false
    intro heq
    have hsame := aliceAnnounces_dedupHash (by omega) (by decide) (hann k).arrives h₀ heq
    omega
  · intro j k hjk hk heq
    have hsame :=
      aliceAnnounces_dedupHash (by omega) (by omega) (hann k).arrives (hann j).arrives heq
    omega
  · intro j k hjk hk
    rw [hrandom, hrandom, parseRandomBlobTimestamp_announceRandomHash rfl,
      parseRandomBlobTimestamp_announceRandomHash rfl]
    omega

/-- Alice's announce from before the path she announced last replaces that path. -/
theorem outdated_replaces : ¬ ∀ {t t' : Transport} {d : Bytes} {e : PathEntry} {i : IfaceId}
    {wire : Bytes} {now : Nat}, Reachable t → t.paths.get d = some e → now < e.expiresMs →
    t.step (.inbound i wire now) = .ok t' → LongerOnlyIfFresher d e t' := by
  intro hall
  have hzero : (0 : UInt8) < 255 := by decide
  have hone : (1 : UInt8) < 255 := by decide
  obtain ⟨p₀, va₀, ha₀, hhops₀, hrandom₀⟩ := announces_aliceAnnounceAt 2000 hzero
  have hann := fun k => announces_aliceAnnounceAt (1001 + k) hone
  choose p va hann hhops hrandom using hann
  -- Bob hears the first one
  obtain ⟨t₀, h₀, hnone, hunknown, hid, hblack, hempty⟩ : ∃ t₀,
      relay.step (.registerInterface 0) = .ok t₀ ∧ t₀.paths.get aliceDest = none ∧
      t₀.publicKeyFor aliceDest = none ∧ t₀.localIdentity = bob ∧
      (∀ h, t₀.isBlackholed h = false) ∧ ∀ q, t₀.hasSeen q = false :=
    ⟨_, rfl, rfl, rfl, rfl, fun _ => rfl, fun _ => rfl⟩
  have hl₀ : t₀.Listens aliceDest alicePub := by
    refine ⟨?_, ?_, hblack _⟩
    · intro k hk
      rw [hunknown] at hk
      cases hk
    · rw [hid]
      decide +kernel
  obtain ⟨t₁, h₁, hl₁, hlist, hpath⟩ := hl₀.hears ha₀ (hempty p₀) 0 1000
  have hnone' : t₀.paths.get va₀.destinationHash = none := by rw [ha₀.destinationHash, hnone]
  rw [keptPath_of_none hnone'] at hpath
  have hwindow : ((t₀.learnedPath va₀ 0 p₀ 1000).noted va₀.randomHash).randomBlobs =
      [va₀.randomHash] := by
    simp [PathEntry.noted, learnedPath, hnone', PathTable.pushBlob, PathTable.maxRandomBlobs]
  have hcached : ((t₀.learnedPath va₀ 0 p₀ 1000).noted va₀.randomHash).emittedAt =
      some (parseRandomBlobTimestamp va₀.randomHash) := by
    rw [PathEntry.emittedAt, PathEntry.noted_cachedHash,
      learnedPath_cachedHash ha₀.arrives ha₀.valid, Option.map_some]
  have hseries : t₁.Series aliceDest alicePub 33 (fun k => aliceAnnounces (k + 1)) p va := by
    refine series_aliceAnnounces ?_ ha₀.arrives hann hrandom
    intro q
    rw [hasSeen, hlist, contains_recorded, hempty, Bool.or_false]
  have hlonger : ∀ k ≤ PathTable.maxRandomBlobs,
      ((t₀.learnedPath va₀ 0 p₀ 1000).noted va₀.randomHash).hops < (p k).hops := by
    intro k _
    rw [PathEntry.noted_hops, hhops]
    change p₀.hops < 1 + 1
    rw [hhops₀]
    decide
  have holder : ∀ k ≤ PathTable.maxRandomBlobs, parseRandomBlobTimestamp (va k).randomHash <
      parseRandomBlobTimestamp va₀.randomHash := by
    intro k hk
    rw [hrandom, hrandom₀, parseRandomBlobTimestamp_announceRandomHash rfl,
      parseRandomBlobTimestamp_announceRandomHash rfl]
    simp only [PathTable.maxRandomBlobs] at hk
    omega
  have hlive : 1000 < ((t₀.learnedPath va₀ 0 p₀ 1000).noted va₀.randomHash).expiresMs := by
    rw [PathEntry.noted_expiresMs]
    change 1000 < 1000 + 60 * 60 * 1000
    omega
  -- and then the others
  obtain ⟨t₂, t₃, e, hsteps, he, hlive', hstep, houtdates⟩ := outdates_of_series hl₁ hpath hwindow
    hcached hseries hlonger holder 0 hlive
  obtain ⟨rs, hrun, -⟩ := run_of_steps hsteps
  have ht₁ : Reachable t₁ := ((reachable_new bob true fun _ => Vectors.cfg).step h₀).step h₁
  have hsound := (ht₁.run hrun).entriesSound
  exact (longerOnlyIfFresher_iff hsound he hlive' hstep).mp (hall (ht₁.run hrun) he hlive' hstep)
    houtdates

end Transport
end Reticulum
