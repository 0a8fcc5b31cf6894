import Reticulum.Rns.Transport.TakeIn

/-!
# The path table and the known keys

Both are written when an announce is taken in and nowhere else, so what `handle_announce` checked of
it stays true of what they hold: an entry for `d` caches a valid announce for `d` under the
node's own transport id, and the key on record for `d` is the one that announce was signed with.
-/

namespace Reticulum

/-- The packet that an entry for `d` caches, at a node with the transport id `ourId`. -/
structure PathEntry.Caches (e : PathEntry) (ourId d : Bytes) (p : Packet) : Prop where
  parses : Packet.fromWireBytes e.announceWire = .ok p
  headerType : p.headerType = .header2
  packetType : p.packetType = .announce
  destinationType : p.destinationType = .single
  transportId : p.transportId = ourId
  destinationHash : p.destinationHash = d
  hops : p.hops = e.hops
  one_le_hops : 1 ≤ p.hops

/-- A window of random hashes, as `note_random_blob` keeps it. -/
structure BlobWindow (blobs : List Bytes) : Prop where
  length_le : blobs.length ≤ PathTable.maxRandomBlobs
  nodup : blobs.Nodup
  length_blob : ∀ b ∈ blobs, b.length = 10

theorem blobWindow_nil : BlobWindow [] := ⟨by simp, by simp, by simp⟩

theorem PathTable.mem_of_mem_pushBlob {blobs : List Bytes} {b blob : Bytes}
    (h : b ∈ pushBlob blobs blob) : b ∈ blobs ∨ b = blob := by
  simp only [pushBlob] at h
  split at h
  · have hmem := List.mem_of_mem_drop h
    simpa using hmem
  · simpa using h

theorem BlobWindow.pushBlob {blobs : List Bytes} {blob : Bytes} (h : BlobWindow blobs)
    (hnew : blob ∉ blobs) (hlen : blob.length = 10) :
    BlobWindow (PathTable.pushBlob blobs blob) := by
  have hnodup : (blobs ++ [blob]).Nodup := by
    rw [List.nodup_append]
    refine ⟨h.nodup, by simp, ?_⟩
    intro b hb b' hb' heq
    rw [List.mem_singleton] at hb'
    subst heq hb'
    exact hnew hb
  constructor
  · have hle := h.length_le
    simp only [PathTable.pushBlob]
    split
    · simp only [List.length_drop, List.length_append, List.length_singleton]
      omega
    · omega
  · simp only [PathTable.pushBlob]
    split
    · exact hnodup.sublist (List.drop_sublist _ _)
    · exact hnodup
  · intro b hb
    rcases PathTable.mem_of_mem_pushBlob hb with hb | rfl
    · exact h.length_blob b hb
    · exact hlen

theorem PathTable.mem_pushBlob_self (blobs : List Bytes) (blob : Bytes) :
    blob ∈ pushBlob blobs blob := by
  have hmem : blob ∈ (blobs ++ [blob]).drop 1 ∨ blobs = [] := by
    cases blobs with
    | nil => exact .inr rfl
    | cons b rest => exact .inl (by simp)
  simp only [pushBlob]
  split
  · rcases hmem with hmem | rfl
    · exact hmem
    · rename_i hlt
      simp [maxRandomBlobs] at hlt
  · simp

namespace PathEntry
variable {e : PathEntry} {blob : Bytes}

theorem mem_noted_self (e : PathEntry) (blob : Bytes) : blob ∈ (e.noted blob).randomBlobs := by
  unfold noted
  split
  · assumption
  · exact PathTable.mem_pushBlob_self _ _

theorem blobWindow_noted (h : BlobWindow e.randomBlobs) (hlen : blob.length = 10) :
    BlobWindow (e.noted blob).randomBlobs := by
  unfold noted
  split
  · exact h
  · exact h.pushBlob ‹_› hlen

variable [CryptoLib]

/-- What always holds of an entry under `d`. -/
structure Sound (e : PathEntry) (t : Transport) (d : Bytes) : Prop where
  cached : ∃ p va, e.Caches t.localIdentity.identityHash d p ∧
    Identity.validateAnnounce p = some va ∧ t.publicKeyFor d = some va.publicKey
  expiresMs : e.expiresMs = e.timestampMs + 3600000
  window : BlobWindow e.randomBlobs
  window_ne_nil : e.randomBlobs ≠ []

end PathEntry

section
variable [CryptoLib]

omit [CryptoLib] in
/-- What a relay re-issues, in whatever form it came in. -/
theorem reissued_shape (id : Identity) (p : Packet) :
    (reissued id p).headerType = .header2 ∧ (reissued id p).transportId = id.identityHash ∧
      (reissued id p).hops = p.hops ∧ (reissued id p).contextFlag = p.contextFlag := by
  unfold reissued
  split
  · exact ⟨headerTypeOf_toHeader2Flags _, rfl, rfl, contextFlagOf_toHeader2Flags _⟩
  · rename_i h1
    exact ⟨p.header2_of_ne h1, rfl, rfl, rfl⟩

theorem validateAnnounce_reissued (id : Identity) (p : Packet) :
    Identity.validateAnnounce (reissued id p) = Identity.validateAnnounce p := by
  obtain ⟨-, -, -, hflag⟩ := reissued_shape id p
  exact validateAnnounce_congr (reissued_hashablePart id p) hflag

theorem reissued_caches {id : Identity} {p : Packet} {va : ValidatedAnnounce} {e : PathEntry}
    (hv : Identity.validateAnnounce p = some va) (hhops : 1 ≤ p.hops)
    (hwire : e.announceWire = (reissued id p).wireBytes) (he : e.hops = p.hops) :
    e.Caches id.identityHash va.destinationHash (reissued id p) ∧
      Identity.validateAnnounce (reissued id p) = some va := by
  obtain ⟨body, hb⟩ := validateAnnounce_eq_some hv
  obtain ⟨hlow, hdest, -, -⟩ := Packet.hashablePart_eq_iff.mp (reissued_hashablePart id p)
  obtain ⟨h2, htid, hh, -⟩ := reissued_shape id p
  refine ⟨⟨?_, h2, ?_, ?_, htid, ?_, hh.trans he.symm, hh ▸ hhops⟩, ?_⟩
  · exact Packet.fromWireBytes_eq_ok_iff.mpr hwire.symm
  · exact (packetTypeOf_congr hlow).trans hb.packetType
  · exact (destinationTypeOf_congr hlow).trans hb.destinationType
  · exact hdest.trans hb.destinationHash.symm
  · exact (validateAnnounce_reissued id p).trans hv

namespace Transport
variable {t t' : Transport} {a : Action} {d pk : Bytes}

/-! ### Keys -/

/-- The call took in an announce for `d` whose signature verified under `pk`. -/
def CertifiedBy (d pk : Bytes) (r : Rec Transport Action) : Prop :=
  ∃ i wire now p body, r.act = .inbound i wire now ∧ arriving wire = some p ∧
    p.packetType = .announce ∧ p.destinationHash = d ∧
    parseAnnounceBody p.data p.contextFlag = .ok body ∧ body.publicKey = pk ∧
    ed25519Verify (pk.slice 32 32) body.signature (announceSignedData d body) = true ∧
    body.nameHash.length = 10 ∧
    d = (sha256 (body.nameHash ++ (sha256 pk).slice 0 16)).slice 0 16 ∧
    (sha256 pk).slice 0 16 ≠ r.pre.localIdentity.identityHash ∧
    r.pre.isBlackholed ((sha256 pk).slice 0 16) = false

theorem certifiedBy_of_accepts {i : IfaceId} {wire : Bytes} {now : Nat} {p : Packet}
    {va : ValidatedAnnounce} (hw : arriving wire = some p) (ha : t.accepts p = some va) :
    CertifiedBy va.destinationHash va.publicKey ⟨t, .inbound i wire now, t'⟩ := by
  obtain ⟨hv, hlocal, hblack, -⟩ := accepts_checks ha
  obtain ⟨body, hb⟩ := validateAnnounce_eq_some hv
  obtain ⟨hname, -⟩ := parseAnnounceBody_lengths hb.parse
  refine ⟨i, wire, now, p, body, rfl, hw, hb.packetType, hb.destinationHash.symm, hb.parse,
    hb.publicKey.symm, ?_, hname, ?_, hlocal, hblack⟩
  · rw [hb.destinationHash]
    exact hb.signature
  · rw [hb.destinationHash, hb.certified]
    rfl

/-- A known key stays. -/
theorem step_publicKeyFor (h : t.step a = .ok t') (hk : t.publicKeyFor d = some pk) :
    t'.publicKeyFor d = some pk := by
  cases step_entry h d with
  | keep _ hk' => rw [hk', hk]
  | takeIn _ _ ha hd _ hk' =>
    subst hd
    obtain ⟨-, -, -, hsame⟩ := accepts_checks ha
    rw [hk', hsame pk hk]
  | expire _ _ _ hk' => rw [hk', hk]

theorem publicKeyFor_of_run {rs : List (Rec Transport Action)} (hrun : Run Steps t rs t')
    (hk : t.publicKeyFor d = some pk) : t'.publicKeyFor d = some pk :=
  hrun.inv (I := fun s => s.publicKeyFor d = some pk) hk fun _ _ _ hs h => step_publicKeyFor h hs

/-- A key that was not held before the call was certified by the call. -/
theorem certifiedBy_of_step {r : Rec Transport Action} (h : Steps r.pre r.act r.post)
    (hk : r.post.publicKeyFor d = some pk) :
    CertifiedBy d pk r ∨ r.pre.publicKeyFor d = some pk := by
  obtain ⟨t, a, t'⟩ := r
  cases step_entry h d with
  | keep _ hk' => exact .inr (hk' ▸ hk)
  | takeIn hw _ ha hd _ hk' =>
    subst hd
    cases hk'.symm.trans hk
    exact .inl (certifiedBy_of_accepts hw ha)
  | expire _ _ _ hk' => exact .inr (hk' ▸ hk)

/-! ### Paths -/

/-- Every path entry is sound. -/
def EntriesSound (t : Transport) : Prop := ∀ d e, t.paths.get d = some e → e.Sound t d

theorem blobWindow_blobs (h : EntriesSound t) (d : Bytes) : BlobWindow (t.blobs d) := by
  unfold blobs
  cases he : t.paths.get d with
  | none => exact blobWindow_nil
  | some e => exact (h d e he).window

theorem entriesSound_step (hi : EntriesSound t) (h : t.step a = .ok t') : EntriesSound t' := by
  intro d e he
  have hid := step_localIdentity h
  -- an old entry stays sound, as the key on record stays
  have hold : ∀ e₀, t.paths.get d = some e₀ → ∃ p va,
      e₀.Caches t'.localIdentity.identityHash d p ∧ Identity.validateAnnounce p = some va ∧
      t'.publicKeyFor d = some va.publicKey := by
    intro e₀ he₀
    obtain ⟨p, va, hc, hv, hk⟩ := (hi d e₀ he₀).cached
    exact ⟨p, va, hid ▸ hc, hv, step_publicKeyFor h hk⟩
  cases step_entry h d with
  | keep hp _ =>
    have hs := hi d e (hp ▸ he)
    exact ⟨hold e (hp ▸ he), hs.expiresMs, hs.window, hs.window_ne_nil⟩
  | @takeIn i wire now p va _ hw _ ha hd hp hk =>
    subst hd
    cases hp.symm.trans he
    obtain ⟨hv, -, -, -⟩ := accepts_checks ha
    have hwin : BlobWindow (t.keptPath va i p now).randomBlobs := by
      rw [keptPath_randomBlobs]
      exact blobWindow_blobs hi _
    have hkept : (∃ p' va', (t.keptPath va i p now).Caches t'.localIdentity.identityHash
          va.destinationHash p' ∧ Identity.validateAnnounce p' = some va' ∧
          t'.publicKeyFor va.destinationHash = some va'.publicKey) ∧
        (t.keptPath va i p now).expiresMs = (t.keptPath va i p now).timestampMs + 3600000 := by
      have hlearned := reissued_caches (e := t.learnedPath va i p now) hv (one_le_hops hw) rfl rfl
      have hnew : ∃ p' va', (t.learnedPath va i p now).Caches t'.localIdentity.identityHash
          va.destinationHash p' ∧ Identity.validateAnnounce p' = some va' ∧
          t'.publicKeyFor va.destinationHash = some va'.publicKey :=
        ⟨_, va, hid ▸ hlearned.1, hlearned.2, hk⟩
      cases hget : t.paths.get va.destinationHash with
      | none =>
        rw [keptPath_of_none hget]
        exact ⟨hnew, rfl⟩
      | some e₀ =>
        cases hr : replacesPath (some e₀) p.hops va.randomHash now with
        | true =>
          rw [keptPath_of_replaces hget hr]
          exact ⟨hnew, rfl⟩
        | false =>
          rw [keptPath_of_not_replaces hget hr]
          exact ⟨hold e₀ hget, (hi _ _ hget).expiresMs⟩
    obtain ⟨⟨p', va', hc, hv', hk'⟩, hx⟩ := hkept
    refine ⟨⟨p', va', ?_, hv', hk'⟩, ?_, PathEntry.blobWindow_noted hwin (length_randomHash hv), ?_⟩
    · exact ⟨by simpa using hc.parses, hc.headerType, hc.packetType, hc.destinationType,
        hc.transportId, hc.destinationHash, by simpa using hc.hops, hc.one_le_hops⟩
    · simpa using hx
    · exact List.ne_nil_of_mem (PathEntry.mem_noted_self _ _)
  | expire _ _ hp _ => cases hp.symm.trans he

theorem Reachable.entriesSound (h : Reachable t) : EntriesSound t :=
  h.inv (fun _ _ _ d e he => by cases he) fun _ _ _ => entriesSound_step

/-- In every run a key that is held stays the same; every key held was brought, in the run, by an
announce that it verifies and that hashes to its destination; and no call brings a key of the local
identity or of one that is blackholed at the time. -/
theorem publicKeys_pinned {id₀ : Identity} {enabled : Bool} {cfg : IfaceId → Interface.Config}
    {rs : List (Rec Transport Action)} {t : Transport}
    (hrun : Run Steps (new id₀ enabled cfg) rs t) :
    (∀ rs' t' d pk, Run Steps t rs' t' → t.publicKeyFor d = some pk →
      t'.publicKeyFor d = some pk) ∧
    (∀ d pk, t.publicKeyFor d = some pk → ∃ r ∈ rs, r.pre.publicKeyFor d = none ∧
      r.post.publicKeyFor d = some pk ∧ CertifiedBy d pk r) ∧
    ∀ r ∈ rs, ∀ d pk, r.pre.publicKeyFor d ≠ some pk → r.post.publicKeyFor d = some pk →
      CertifiedBy d pk r := by
  have hadded : ∀ r ∈ rs, ∀ d pk, r.pre.publicKeyFor d ≠ some pk →
      r.post.publicKeyFor d = some pk → CertifiedBy d pk r := by
    intro r hr d pk hpre hpost
    rcases certifiedBy_of_step (hrun.step_of_mem hr) hpost with hc | hold
    · exact hc
    · exact absurd hold hpre
  refine ⟨fun rs' t' d pk hrun' hk => publicKeyFor_of_run hrun' hk, ?_, hadded⟩
  intro d pk hk
  -- the step that first brought the key
  have hstart : (new id₀ enabled cfg).publicKeyFor d ≠ some pk := by
    intro h
    cases h
  obtain ⟨before, r, after, rfl, ⟨hpost, hpre⟩, -⟩ := hrun.since
    (P := fun s => s.publicKeyFor d = some pk)
    (Q := fun r => r.post.publicKeyFor d = some pk ∧ r.pre.publicKeyFor d ≠ some pk)
    (N := fun _ => True) hstart (fun r _ hpost => by
      by_cases hpre : r.pre.publicKeyFor d = some pk
      · exact .inr ⟨hpre, trivial⟩
      · exact .inl ⟨hpost, hpre⟩) hk
  have hr : r ∈ before ++ r :: after := by simp
  refine ⟨r, hr, ?_, hpost, hadded r hr d pk hpre hpost⟩
  cases hold : r.pre.publicKeyFor d with
  | none => rfl
  | some pk' =>
    have hkept := step_publicKeyFor (hrun.step_of_mem hr) hold
    rw [hpost] at hkept
    rw [Option.some.inj hkept] at hpre
    exact absurd hold hpre

end Transport
end

namespace Transport
open Vectors
attribute [local instance] lib

set_option maxRecDepth 100000 in
theorem heardAlice_key : (relay.steps heardAlice).toOption.map (fun t => t.publicKeyFor aliceDest) =
    some (some alicePub) := by
  decide +kernel

theorem publicKeys_pinned_alice : ∃ rs t, Run Steps relay rs t ∧
    t.publicKeyFor aliceDest = some alicePub ∧ ∃ r ∈ rs, CertifiedBy aliceDest alicePub r := by
  obtain ⟨t, hsteps, -, hk⟩ :=
    reachable_of_steps (reachable_new bob true fun _ => Vectors.cfg) heardAlice_key
  obtain ⟨rs, hrun, -⟩ := run_of_steps hsteps
  obtain ⟨-, hbrought, -⟩ := publicKeys_pinned hrun
  obtain ⟨r, hr, -, -, hc⟩ := hbrought aliceDest alicePub hk
  exact ⟨rs, t, hrun, hk, r, hr, hc⟩

end Transport
end Reticulum
