import Reticulum.Rns.Transport.Calls

/-!
# Which counters a handler moves

`Handler.counters` lists them; what a handler does not list it leaves (`dispatch_stats`).
-/

namespace Reticulum

def Handler.counters : Handler → List Counter
  | .announce => [.announceRejected, .selfAnnounceDrops, .blackholeDrops, .collisionsRejected,
      .announceValidated, .pathReplacementRejected, .announcesQueued, .announcesDelivered]
  | .pathRequest => [.pathRequestsTagless, .pathRequestsReceived, .pathRequestsDeduped,
      .pathRequestsLocalNoSeed, .pathRequestsLocalAnswered, .pathRequestsAnswered,
      .pathRequestsForwarded, .pathRequestsUnanswered]
  | .linkData => [.linkDataUnknownLink, .linkDataUnvalidated, .linkDataForwarded,
      .linkCloseObserved]
  | .data => [.dataInbound, .dataLocalArrived, .dataForwardedHeader2, .dataForwardedHeader1]
  | .linkRequest => [.linkRequestsForwarded]
  | .linkProof => [.linkProofsUnknownLink, .linkProofsWrongIface, .linkProofsInvalid,
      .linkProofsForwarded]
  | .proof => [.proofInbound, .proofOrphaned, .proofWrongInterface, .proofForwarded]

namespace Transport

theorem count_stats (t : Transport) (c c' : Counter) :
    (t.count c').stats c = if c = c' then t.stats c + 1 else t.stats c := by
  simp only [count]
  split
  · rename_i h
    rw [h]
  · rfl

theorem count_stats_of_ne {t : Transport} {c c' : Counter} (h : c ≠ c') :
    (t.count c').stats c = t.stats c := by
  rw [count_stats, if_neg h]

/-- A counter that is not among `cs` stays when one of them is counted. -/
theorem count_stats_of_notMem {cs : List Counter} {c c' : Counter} (hc : c ∉ cs) (hc' : c' ∈ cs)
    (t : Transport) : (t.count c').stats c = t.stats c := by
  refine count_stats_of_ne ?_
  rintro rfl
  exact hc hc'

theorem transmitAll_stats (kind : TxKind) (is : List IfaceId) (wire : Bytes) (t : Transport) :
    (is.foldl (fun t i => t.transmitNow kind i wire) t).stats = t.stats := by
  induction is generalizing t with
  | nil => rfl
  | cons i is ih => exact ih (t.transmitNow kind i wire)

section
variable {t t' : Transport} {i : IfaceId} {p : Packet} {now : Nat} {c : Counter}

theorem handleProofForward_stats (hc : c ∉ Handler.proof.counters) :
    (t.handleProofForward i p).stats c = t.stats c := by
  have hin := count_stats_of_notMem hc (show Counter.proofInbound ∈ _ by decide) t
  simp only [handleProofForward]
  split
  · exact (count_stats_of_notMem hc (by decide) _).trans hin
  split
  · exact (count_stats_of_notMem hc (by decide) _).trans hin
  split
  · exact hin
  · exact (count_stats_of_notMem hc (by decide) _).trans hin

theorem handleLinkDataForward_stats (hc : c ∉ Handler.linkData.counters) :
    (t.handleLinkDataForward i p now).stats c = t.stats c := by
  simp only [handleLinkDataForward]
  split
  · exact count_stats_of_notMem hc (by decide) _
  split
  · exact count_stats_of_notMem hc (by decide) _
  split
  · rfl
  have hout := count_stats_of_notMem hc (show Counter.linkDataForwarded ∈ _ by decide)
  split
  · exact (count_stats_of_notMem hc (by decide) _).trans (hout _)
  · exact hout _

variable [CryptoLib]

/-- What `handle_announce` counts of an announce it takes in. -/
theorem handleAnnounce_stats_of_accepts {va : ValidatedAnnounce} (ha : t.accepts p = some va)
    (hc : c ∉ [.announceValidated, .pathReplacementRejected, .announcesQueued, .announcesDelivered])
    (h : t.handleAnnounce i p now = .ok t') : t'.stats c = t.stats c := by
  obtain ⟨s, hs, heq⟩ := handleAnnounce_takeIn i now ha
  cases heq.symm.trans h
  simp only [List.mem_cons, List.not_mem_nil, or_false, not_or] at hc
  obtain ⟨hvalidated, hrejected, hqueued, hdelivered⟩ := hc
  have hstats := hs c hdelivered
  rw [if_neg hvalidated, if_neg (fun h => hrejected h.1), if_neg (fun h => hqueued h.1)] at hstats
  exact hstats

theorem handleAnnounce_stats_of_notMem (hc : c ∉ Handler.announce.counters)
    (h : t.handleAnnounce i p now = .ok t') : t'.stats c = t.stats c := by
  cases ha : t.accepts p with
  | some va =>
    refine handleAnnounce_stats_of_accepts ha ?_ h
    intro hmem
    exact hc (List.mem_append_right (Handler.announce.counters.take 4) hmem)
  | none =>
    unfold handleAnnounce at h
    cases hv : Identity.validateAnnounce p with
    | none =>
      rw [hv] at h
      cases h
      exact count_stats_of_notMem hc (by decide) _
    | some va =>
      rw [hv] at h
      simp only at h
      split at h
      · cases h
        exact count_stats_of_notMem hc (by decide) _
      split at h
      · cases h
        exact count_stats_of_notMem hc (by decide) _
      split at h
      · cases h
        exact count_stats_of_notMem hc (by decide) _
      · simp_all [accepts, Option.filter]

theorem emitAnnounceForLocal_stats {d a : Bytes} {pr b : Bool} {only : Option IfaceId}
    (h : t.emitAnnounceForLocal d a pr only = .ok (b, t')) : t'.stats c = t.stats c := by
  cases emitsLocal_of_ok h with
  | silent => rfl
  | sent => exact congrFun (transmitAll_stats _ _ _ _) c

theorem handlePathRequest_stats (hc : c ∉ Handler.pathRequest.counters)
    (h : t.handlePathRequest i p = .ok t') : t'.stats c = t.stats c := by
  have hcount : ∀ {d : Counter}, d ∈ Handler.pathRequest.counters → ∀ u : Transport,
      (u.count d).stats c = u.stats c := fun hd u => count_stats_of_notMem hc hd u
  have hin : (t.tagged p).stats c = t.stats c :=
    hcount (show Counter.pathRequestsReceived ∈ _ by decide) t
  cases requested_of_handlePathRequest h with
  | short => rfl
  | tagless => exact hcount (by decide) t
  | repeated => exact (hcount (by decide) _).trans hin
  | fresh _ _ _ h =>
    cases h with
    | noSeed => exact (hcount (by decide) _).trans hin
    | own _ he =>
      exact ((hcount (by decide) _).trans (hcount (by decide) _)).trans
        ((emitAnnounceForLocal_stats he).trans hin)
    | fromTable =>
      refine (hcount (by decide) _).trans (Eq.trans ?_ hin)
      unfold emitPathResponse
      split <;> rfl
    | passOn =>
      simp only [forwardPathRequest]
      split
      · have hall := transmitAll_stats .pathRequestForward (t.interfaces.filter (· ≠ i)) p.wireBytes
        exact (hcount (by decide) _).trans ((congrFun (hall _) c).trans hin)
      · exact (hcount (by decide) _).trans hin
    | disabled => exact (hcount (by decide) _).trans hin

theorem handleDataForward_stats (hc : c ∉ Handler.data.counters)
    (h : t.handleDataForward i p now = .ok t') : t'.stats c = t.stats c := by
  have hin := count_stats_of_notMem hc (show Counter.dataInbound ∈ _ by decide) t
  simp only [handleDataForward] at h
  split at h
  · cases h
    exact hin
  split at h
  · cases h
    exact hin
  split at h
  · cases h
    exact hin
  split at h
  · cases h
    exact (count_stats_of_notMem hc (by decide) _).trans hin
  obtain ⟨f, -, h⟩ := bind_eq_ok h
  cases f with
  | none =>
    cases h
    exact hin
  | some fwd =>
    cases h
    refine (count_stats_of_notMem hc ?_ _).trans hin
    split <;> decide

theorem handleLinkRequestForward_stats (hc : c ∉ Handler.linkRequest.counters)
    (h : t.handleLinkRequestForward i p now = .ok t') : t'.stats c = t.stats c := by
  simp only [handleLinkRequestForward] at h
  split at h
  · cases h
    rfl
  split at h
  · cases h
    rfl
  split at h
  · cases h
    rfl
  split at h
  · cases h
    rfl
  obtain ⟨f, -, h⟩ := bind_eq_ok h
  cases f with
  | none =>
    cases h
    rfl
  | some fwd =>
    cases h
    exact count_stats_of_notMem hc (by decide) _

theorem handleLinkProofForward_stats (hc : c ∉ Handler.linkProof.counters) :
    (t.handleLinkProofForward i p now).stats c = t.stats c := by
  simp only [handleLinkProofForward]
  split
  · exact count_stats_of_notMem hc (by decide) _
  split
  · exact count_stats_of_notMem hc (by decide) _
  split
  · exact count_stats_of_notMem hc (by decide) _
  split
  · exact count_stats_of_notMem hc (by decide) _
  · exact count_stats_of_notMem hc (by decide) _

theorem dispatch_stats (hc : c ∉ p.handler.counters) (h : t.dispatch i p now = .ok t') :
    t'.stats c = t.stats c := by
  rw [dispatch_eq] at h
  cases hp : p.handler with
  | announce =>
    rw [hp] at h hc
    exact handleAnnounce_stats_of_notMem hc h
  | pathRequest =>
    rw [hp] at h hc
    exact handlePathRequest_stats hc h
  | linkData =>
    rw [hp] at h hc
    cases h
    exact handleLinkDataForward_stats hc
  | data =>
    rw [hp] at h hc
    exact handleDataForward_stats hc h
  | linkRequest =>
    rw [hp] at h hc
    exact handleLinkRequestForward_stats hc h
  | linkProof =>
    rw [hp] at h hc
    cases h
    exact handleLinkProofForward_stats hc
  | proof =>
    rw [hp] at h hc
    cases h
    exact handleProofForward_stats hc

end

end Transport
end Reticulum
