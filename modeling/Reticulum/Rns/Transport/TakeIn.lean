import Reticulum.Rns.Transport.Propagation

/-!
# What an announce leaves behind

`handle_announce` takes an announce in when it validates, comes from another identity that is not
blackholed, and agrees with the key on record. It then may replace the path (`keptPath`), and
records the random hash in the window of the entry it left (`PathEntry.noted`). `step_entry` lists
what any call may do to the path and to the key of one destination.
-/

namespace Reticulum

theorem parseAnnounceBody_lengths {data : Bytes} {flag : Bool} {body : AnnounceBody}
    (h : parseAnnounceBody data flag = .ok body) :
    body.nameHash.length = 10 ∧ body.randomHash.length = 10 := by
  unfold parseAnnounceBody at h
  split at h
  · cases h
  · rename_i hlen
    have hlen : announceFixedLen flag ≤ data.length := Nat.not_lt.mp hlen
    cases h
    simp only [announceFixedLen] at hlen
    exact ⟨Bytes.length_slice_of_le (by omega), Bytes.length_slice_of_le (by omega)⟩

/-- What `validate_announce` has checked of an announce it returns. -/
structure Validates [CryptoLib] (p : Packet) (va : ValidatedAnnounce) (body : AnnounceBody) :
    Prop where
  packetType : p.packetType = .announce
  destinationType : p.destinationType = .single
  parse : parseAnnounceBody p.data p.contextFlag = .ok body
  signature : ed25519Verify (va.publicKey.slice 32 32) body.signature
    (announceSignedData p.destinationHash body) = true
  destinationHash : va.destinationHash = p.destinationHash
  certified : p.destinationHash =
    Identity.destHashOf body.nameHash (identityHashOf va.publicKey)
  publicKey : va.publicKey = body.publicKey
  randomHash : va.randomHash = body.randomHash
  isPathResponse : va.isPathResponse = (p.context == contextPathResponse)

theorem validateAnnounce_eq_some [CryptoLib] {p : Packet} {va : ValidatedAnnounce}
    (h : Identity.validateAnnounce p = some va) : ∃ body, Validates p va body := by
  unfold Identity.validateAnnounce at h
  by_cases ht : p.packetType = .announce
  swap
  · rw [if_pos ht] at h; cases h
  by_cases hdt : p.destinationType = .single
  swap
  · rw [if_neg (not_not.mpr ht), if_pos hdt] at h; cases h
  rw [if_neg (not_not.mpr ht), if_neg (not_not.mpr hdt)] at h
  cases hparse : parseAnnounceBody p.data p.contextFlag with
  | error e => rw [hparse] at h; cases h
  | ok body =>
    rw [hparse] at h
    simp only at h
    split at h
    · cases h
    rename_i hsig
    split at h
    · cases h
    rename_i hdest
    cases h
    exact ⟨body, ht, hdt, hparse, by simpa using hsig, rfl, (not_not.mp hdest).symm, rfl, rfl, rfl⟩

theorem length_randomHash [CryptoLib] {p : Packet} {va : ValidatedAnnounce}
    (h : Identity.validateAnnounce p = some va) : va.randomHash.length = 10 := by
  obtain ⟨body, hv⟩ := validateAnnounce_eq_some h
  rw [hv.randomHash]
  exact (parseAnnounceBody_lengths hv.parse).2

namespace PathEntry

theorem noted_eq (e : PathEntry) (blob : Bytes) :
    e.noted blob = { e with randomBlobs := (e.noted blob).randomBlobs } := by
  unfold noted
  split <;> rfl

@[simp] theorem noted_announceWire (e : PathEntry) (blob : Bytes) :
    (e.noted blob).announceWire = e.announceWire := by rw [noted_eq]

@[simp] theorem noted_hops (e : PathEntry) (blob : Bytes) : (e.noted blob).hops = e.hops := by
  rw [noted_eq]

@[simp] theorem noted_expiresMs (e : PathEntry) (blob : Bytes) :
    (e.noted blob).expiresMs = e.expiresMs := by rw [noted_eq]

@[simp] theorem noted_timestampMs (e : PathEntry) (blob : Bytes) :
    (e.noted blob).timestampMs = e.timestampMs := by rw [noted_eq]

end PathEntry

namespace Transport

/-- The window of random hashes that the node holds for `d`. -/
def blobs (t : Transport) (d : Bytes) : List Bytes :=
  ((t.paths.get d).map PathEntry.randomBlobs).getD []

/-- The entry an announce leaves, before its random hash is recorded. -/
def keptPath (t : Transport) (va : ValidatedAnnounce) (i : IfaceId) (p : Packet) (now : Nat) :
    PathEntry :=
  ((t.paths.get va.destinationHash).filter fun e =>
    !replacesPath (some e) p.hops va.randomHash now).getD (t.learnedPath va i p now)

section
variable {t : Transport} {va : ValidatedAnnounce} {i : IfaceId} {p : Packet} {now : Nat}
  {e : PathEntry}

theorem keptPath_of_none (h : t.paths.get va.destinationHash = none) :
    t.keptPath va i p now = t.learnedPath va i p now := by
  rw [keptPath, h, Option.filter_none, Option.getD_none]

theorem keptPath_of_replaces (h : t.paths.get va.destinationHash = some e)
    (hr : replacesPath (some e) p.hops va.randomHash now = true) :
    t.keptPath va i p now = t.learnedPath va i p now := by
  rw [keptPath, h, Option.filter_some, if_neg (by simp [hr]), Option.getD_none]

theorem keptPath_of_not_replaces (h : t.paths.get va.destinationHash = some e)
    (hr : replacesPath (some e) p.hops va.randomHash now = false) :
    t.keptPath va i p now = e := by
  rw [keptPath, h, Option.filter_some, if_pos (by simp [hr]), Option.getD_some]

/-- Either way the window is the one there was. -/
theorem keptPath_randomBlobs :
    (t.keptPath va i p now).randomBlobs = t.blobs va.destinationHash := by
  unfold keptPath blobs
  cases h : t.paths.get va.destinationHash with
  | none => simp [learnedPath, h]
  | some e =>
    rw [Option.filter_some]
    split
    · rfl
    · simp [learnedPath, h]

theorem learnedPaths_get :
    (t.learnedPaths va i p now).get va.destinationHash = some (t.keptPath va i p now) := by
  unfold learnedPaths
  split
  · rename_i hr
    rw [PathTable.get_put, if_pos rfl]
    cases h : t.paths.get va.destinationHash with
    | none => rw [keptPath_of_none h]
    | some e => rw [h] at hr; rw [keptPath_of_replaces h hr]
  · rename_i hr
    cases h : t.paths.get va.destinationHash with
    | none => rw [h] at hr; exact absurd rfl hr
    | some e => rw [h] at hr; rw [keptPath_of_not_replaces h (eq_false_of_ne_true hr)]

theorem learnedPaths_get_of_ne {d : Bytes} (hd : d ≠ va.destinationHash) :
    (t.learnedPaths va i p now).get d = t.paths.get d := by
  unfold learnedPaths
  split
  · rw [PathTable.get_put, if_neg hd]
  · rfl

/-- A random hash is new when it is not in the window. -/
theorem noteRandomBlob_learnedPaths :
    ((t.learnedPaths va i p now).noteRandomBlob va.destinationHash va.randomHash).1 =
      decide (va.randomHash ∉ t.blobs va.destinationHash) := by
  have hblobs : (t.keptPath va i p now).randomBlobs = t.blobs va.destinationHash :=
    keptPath_randomBlobs
  rw [← hblobs, PathTable.noteRandomBlob, learnedPaths_get]
  by_cases h : va.randomHash ∈ (t.keptPath va i p now).randomBlobs <;> simp [h]

theorem get_noteRandomBlob_learnedPaths :
    ((t.learnedPaths va i p now).noteRandomBlob va.destinationHash va.randomHash).2.get
      va.destinationHash = some ((t.keptPath va i p now).noted va.randomHash) := by
  rw [PathTable.get_noteRandomBlob, if_pos rfl, learnedPaths_get]
  rfl

theorem get_noteRandomBlob_learnedPaths_of_ne {d : Bytes} (hd : d ≠ va.destinationHash) :
    ((t.learnedPaths va i p now).noteRandomBlob va.destinationHash va.randomHash).2.get d =
      t.paths.get d := by
  rw [PathTable.get_noteRandomBlob, if_neg hd, learnedPaths_get_of_ne hd]

end

variable [CryptoLib]

/-- What `handle_announce` checks before it takes an announce in. -/
theorem accepts_checks {t : Transport} {p : Packet} {va : ValidatedAnnounce}
    (h : t.accepts p = some va) : Identity.validateAnnounce p = some va ∧
      identityHashOf va.publicKey ≠ t.localIdentity.identityHash ∧
      t.isBlackholed (identityHashOf va.publicKey) = false ∧
      ∀ pk, t.publicKeyFor va.destinationHash = some pk → pk = va.publicKey := by
  obtain ⟨hv, hc⟩ := Option.filter_eq_some_iff.mp h
  simp only [Bool.not_eq_true', ne_eq, decide_eq_true_eq] at hc
  obtain ⟨hlocal, hblack, hknown⟩ := hc
  refine ⟨hv, hlocal, hblack, ?_⟩
  intro pk hpk
  rw [hpk] at hknown
  simpa using hknown

/-- How a call may change the path and the key of the destination `d`. -/
inductive EntryStep (t : Transport) (d : Bytes) : Action → Transport → Prop
  | keep {a : Action} {t' : Transport} (hp : t'.paths.get d = t.paths.get d)
    (hk : t'.publicKeyFor d = t.publicKeyFor d) : EntryStep t d a t'
  | takeIn {i : IfaceId} {wire : Bytes} {now : Nat} {p : Packet} {va : ValidatedAnnounce}
    {t' : Transport} (hw : arriving wire = some p) (hs : t.hasSeen p = false)
    (ha : t.accepts p = some va) (hd : va.destinationHash = d)
    (hp : t'.paths.get d = some ((t.keptPath va i p now).noted va.randomHash))
    (hk : t'.publicKeyFor d = some va.publicKey) : EntryStep t d (.inbound i wire now) t'
  | expire {now : Nat} {e : PathEntry} {t' : Transport} (he : t.paths.get d = some e)
    (hx : e.expiresMs ≤ now) (hp : t'.paths.get d = none)
    (hk : t'.publicKeyFor d = t.publicKeyFor d) : EntryStep t d (.tick now) t'

theorem step_entry {t t' : Transport} {a : Action} (h : t.step a = .ok t') (d : Bytes) :
    EntryStep t d a t' := by
  cases step_did h with
  | apart _ hk => exact .keep (by rw [hk.paths]) (by rw [publicKeyFor, hk.knownDestinations]; rfl)
  | dropped _ => exact .keep rfl rfl
  | @took i _ now p _ hw hs hh =>
    cases hh with
    | @announce va _ _ hk ha _ =>
      by_cases hd : d = va.destinationHash
      · subst hd
        refine .takeIn hw hs ha rfl get_noteRandomBlob_learnedPaths ?_
        rw [publicKeyFor, Dict.lookup_insert_eq, if_pos rfl]
      · refine .keep (get_noteRandomBlob_learnedPaths_of_ne hd) ?_
        rw [publicKeyFor, Dict.lookup_insert_eq, if_neg (by simpa using hd)]
        rfl
    | ignored _ => exact .keep rfl rfl
    | pathRequest _ _ => exact .keep rfl rfl
    | data _ _ => exact .keep rfl rfl
    | linkRequest _ _ => exact .keep rfl rfl
    | proof _ _ => exact .keep rfl rfl
    | linkProof _ _ => exact .keep rfl rfl
    | linkData _ _ => exact .keep rfl rfl
  | @ticked now _ _ _ _ _ _ =>
    have hget := t.paths.get_evictExpired now d
    cases he : t.paths.get d with
    | none =>
      rw [he, Option.filter_none] at hget
      exact .keep (hget.trans he.symm) rfl
    | some e =>
      rw [he, Option.filter_some] at hget
      by_cases hx : e.expiresMs ≤ now
      · exact .expire he hx (by simpa [hx] using hget) rfl
      · exact .keep (by simpa [hx, he] using hget) rfl

/-- What `inbound` does to the path of the destination of an announce. -/
theorem inbound_path {t t' : Transport} {i : IfaceId} {wire : Bytes} {now : Nat} {p : Packet}
    {va : ValidatedAnnounce} (h : t.step (.inbound i wire now) = .ok t')
    (hw : arriving wire = some p) (hv : Identity.validateAnnounce p = some va) :
    (t.hasSeen p = true ∨ t.accepts p = none) ∧ t'.paths = t.paths ∨
      t.hasSeen p = false ∧ t.accepts p = some va ∧ t'.paths.get va.destinationHash =
        some ((t.keptPath va i p now).noted va.randomHash) := by
  obtain ⟨body, hb⟩ := validateAnnounce_eq_some hv
  have hk : p.handler = .announce := Packet.handler_eq_announce.mpr hb.packetType
  cases hs : t.hasSeen p with
  | true =>
    obtain ⟨s, hstep⟩ := step_of_hasSeen (i := i) now hw hs
    cases hstep.symm.trans h
    exact .inl ⟨.inl rfl, rfl⟩
  | false =>
    rw [step_inbound_announce hw hs hk] at h
    cases ha : t.accepts p with
    | none =>
      obtain ⟨s, heq⟩ := handleAnnounce_of_accepts_none (t := seen { t with out := [] } p) i now ha
      cases heq.symm.trans h
      exact .inl ⟨.inr rfl, rfl⟩
    | some va' =>
      obtain ⟨s, -, heq⟩ := handleAnnounce_takeIn (t := seen { t with out := [] } p) i now ha
      cases heq.symm.trans h
      cases (accepts_checks ha).1.symm.trans hv
      exact .inr ⟨rfl, rfl, get_noteRandomBlob_learnedPaths⟩

end Transport
end Reticulum
