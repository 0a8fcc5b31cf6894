import Reticulum.Rns.Transport.Run

/-!
# How long a node remembers a packet

A hash that enters the list stays at least until 500001 further ones have come in after it.
-/

namespace Reticulum
namespace Transport
variable [CryptoLib]

/-- The packet hash a call adds to the hash list. -/
def recordedHash? (r : Rec Transport Action) : Option Bytes :=
  match r.act with
  | .inbound _ wire _ =>
    (arriving wire).bind fun p => if r.pre.hasSeen p then none else some (dedupHash p)
  | _ => none

def recordedHashes (rs : List (Rec Transport Action)) : Finset Bytes :=
  (rs.filterMap recordedHash?).toFinset

theorem mem_recordedHashes {rs : List (Rec Transport Action)} {hash : Bytes} :
    hash ∈ recordedHashes rs ↔ ∃ r ∈ rs, recordedHash? r = some hash := by
  simp [recordedHashes]

theorem recordedHashes_subset {rs rs' : List (Rec Transport Action)} (h : ∀ r ∈ rs, r ∈ rs') :
    recordedHashes rs ⊆ recordedHashes rs' := by
  intro hash hmem
  obtain ⟨r, hr, hrec⟩ := mem_recordedHashes.mp hmem
  exact mem_recordedHashes.mpr ⟨r, h r hr, hrec⟩

structure HashlistInv (t : Transport) : Prop where
  valid : t.hashlist.Valid
  maxSize : t.hashlist.maxSize = PacketHashList.defaultMaxSize

theorem Handled.hashlist {t t' : Transport} {i : IfaceId} {p : Packet} {now : Nat}
    (h : Handled t i p now t') : t'.hashlist = t.recorded p := by
  cases h <;> rfl

theorem hashlist_moves (r : Rec Transport Action) (h : Steps r.pre r.act r.post) :
    r.pre.hashlist.Moves (recordedHash? r) r.post.hashlist := by
  obtain ⟨t, a, t'⟩ := r
  replace h : t.step a = .ok t' := h
  cases step_did h with
  | apart ha hk =>
    show t.hashlist.Moves _ t'.hashlist
    rw [hk.hashlist]
    cases a with
    | inbound => cases ha
    | tick => cases ha
    | _ => exact .keep
  | @dropped i wire now s hd =>
    have hnone :
        recordedHash? ⟨t, .inbound i wire now, { t with stats := s, out := [] }⟩ = none := by
      cases hw : arriving wire with
      | none => simp [recordedHash?, hw]
      | some p => simp [recordedHash?, hw, hd p hw]
    rw [hnone]
    exact .keep
  | @took i wire now p t' hw hs hh =>
    have hrec : recordedHash? ⟨t, .inbound i wire now, t'⟩ = some (dedupHash p) := by
      simp [recordedHash?, hw, hs]
    show t.hashlist.Moves _ t'.hashlist
    rw [hrec, hh.hashlist]
    exact .insert hs
  | ticked _ => exact .purge

theorem hashlistInv_step {t t' : Transport} {a : Action} (h : HashlistInv t)
    (hstep : t.step a = .ok t') : HashlistInv t' := by
  have hmoves := hashlist_moves ⟨t, a, t'⟩ hstep
  exact ⟨hmoves.valid h.valid, hmoves.maxSize.trans h.maxSize⟩

theorem Reachable.hashlistInv {t : Transport} (h : Reachable t) : HashlistInv t :=
  h.inv (fun _ _ _ => ⟨PacketHashList.valid_new _, rfl⟩) fun _ _ _ => hashlistInv_step

theorem retains_of_run {t t' : Transport} {rs : List (Rec Transport Action)} {hash : Bytes}
    {S : Finset Bytes} (hrun : Run Steps t rs t') (hinv : HashlistInv t)
    (h : t.hashlist.Retains hash S) (hnew : (recordedHashes rs).erase hash ⊆ S)
    (hS : S.card < 500001) : t'.hashlist.Retains hash S := by
  refine PacketHashList.retains_of_run hashlist hashlist_moves hrun hinv.valid h ?_ ?_
  · intro r hr hash' hrec hne
    exact hnew (Finset.mem_erase.mpr ⟨hne, mem_recordedHashes.mpr ⟨r, hr, hrec⟩⟩)
  · rw [hinv.maxSize, PacketHashList.defaultMaxSize]
    omega

/-- After a call that took a packet in, its copies are duplicates until 500001 further hashes have
been recorded. -/
theorem hasSeen_of_run {t t₁ t₂ : Transport} {rs : List (Rec Transport Action)} {i : IfaceId}
    {wire : Bytes} {now : Nat} {p : Packet} (hinv : HashlistInv t) (hw : arriving wire = some p)
    (hs : t.hasSeen p = false) (hstep : t.step (.inbound i wire now) = .ok t₁)
    (hrun : Run Steps t₁ rs t₂) (hfew : ((recordedHashes rs).erase (dedupHash p)).card < 500001) :
    t₂.hasSeen p = true := by
  have hinv₁ := hashlistInv_step hinv hstep
  have hlist : t₁.hashlist = t.recorded p := by
    cases step_did hstep with
    | apart ha _ => cases ha
    | dropped hd => exact absurd (hs.symm.trans (hd p hw)) (by simp)
    | took hw' _ hh =>
      cases hw.symm.trans hw'
      exact hh.hashlist
  have hkeep : t₁.hashlist.Retains (dedupHash p) ((recordedHashes rs).erase (dedupHash p)) := by
    rw [hlist]
    exact PacketHashList.retains_insert hs
  have hinv₂ : HashlistInv t₂ := Run.inv hrun hinv₁ fun _ _ _ => hashlistInv_step
  exact (retains_of_run hrun hinv₁ hkeep (Finset.Subset.refl _) hfew).contains hinv₂.valid

end Transport
end Reticulum
